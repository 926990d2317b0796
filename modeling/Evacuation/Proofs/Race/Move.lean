import Evacuation.Proofs.Race.Turn
import Evacuation.Proofs.Recorder.Linked
import Evacuation.Proofs.Table.Notes
import Evacuation.Race.Recording

/-!
# Moves of recording threads

`Move` lists what one atomic step of a thread can come to while the phase allows recording and every
reserved slot exists: only a claim out of range stops a thread, or a region that is not there to tell.
`Recording.Advance` is the same for a race, in which one thread moves and the others stand still.
-/

namespace Evacuation.Race

variable {τ : Type} [Layout τ]

/-- One step of a thread on what the threads share. -/
inductive Move : Writer × Recorder × Table τ → Writer × Recorder × Table τ → Prop where
  | rest {w : Writer} {r : Recorder} {table : Table τ} (finished : w.finished = true) :
      Move (w, r, table) (w, r, table)
  | refuse {w : Writer} {r : Recorder} {table : Table τ} {index : UInt32} {rest : List UInt32}
      (running : w.stop = none) (stage : w.stage = .ready) (ahead : w.ahead = index :: rest)
      (beyond : r.failed.capacity ≤ index.toNat) :
      Move (w, r, table) (w.halt (.regionOutOfRange index.toNat r.failed.capacity), r, table)
  | lose {w : Writer} {r : Recorder} {table : Table τ} {index : UInt32} {rest : List UInt32}
      (running : w.stop = none) (stage : w.stage = .ready) (ahead : w.ahead = index :: rest)
      (taken : r.failed.bit index.toNat = true) :
      Move (w, r, table) ({ w with ahead := rest }.answer index false, r, table)
  | win {w : Writer} {r : Recorder} {table : Table τ} {index : UInt32} {rest : List UInt32}
      (running : w.stop = none) (stage : w.stage = .ready) (ahead : w.ahead = index :: rest)
      (inside : index.toNat < r.failed.capacity) (free : r.failed.bit index.toNat = false) :
      Move (w, r, table) ({ w with ahead := rest, stage := .reserving index },
        { r with failed := r.failed.insert index.toNat }, table)
  | reserve {w : Writer} {r : Recorder} {table : Table τ} {index : UInt32}
      (running : w.stop = none) (stage : w.stage = .reserving index) :
      Move (w, r, table) ({ w with stage := .storing index r.journal.cursor },
        { r with journal := r.journal.reserve.2 }, table)
  | store {w : Writer} {r : Recorder} {table : Table τ} {index : UInt32} {slot : UInt64}
      (running : w.stop = none) (stage : w.stage = .storing index slot)
      (inside : slot.toNat < r.journal.slots.size) :
      Move (w, r, table) ({ w with stage := .noting index },
        { r with
          journal := { r.journal with slots := r.journal.slots.setIfInBounds slot.toNat index } },
        table)
  | note {w : Writer} {r : Recorder} {table : Table τ} {index : UInt32}
      (running : w.stop = none) (stage : w.stage = .noting index)
      (told : (table.note index).1 = .ok ()) :
      Move (w, r, table) (w.answer index true, r, (table.note index).2)
  | strand {w : Writer} {r : Recorder} {table : Table τ} {index : UInt32} {fault : Fault}
      (running : w.stop = none) (stage : w.stage = .noting index)
      (lost : (table.note index).1 = .error fault) : Move (w, r, table) (w.halt fault, r, table)

/-- Every step of a thread is a move. -/
theorem Writer.step_move (profile : Profile) {w : Writer} {r : Recorder} {table : Table τ}
    (recording : r.phase = .recording) (wellFormed : r.failed.WellFormed)
    (slots : ∀ index slot, w.stage = .storing index slot → slot.toNat < r.journal.slots.size) :
    Move (w, r, table) (w.step profile r table) := by
  have allowed : (profile.checks && r.phase != .recording) = false := by simp [recording]
  cases stopped : w.stop with
  | some fault =>
      have finished : w.finished = true := by simp [finished, stopped]
      rw [w.step_finished profile finished]
      exact .rest finished
  | none =>
      cases stage : w.stage with
      | ready =>
          cases ahead : w.ahead with
          | nil =>
              have finished : w.finished = true := by simp [finished, stage, ahead]
              rw [w.step_finished profile finished]
              exact .rest finished
          | cons index rest =>
              by_cases inside : index.toNat < r.failed.capacity
              · cases taken : r.failed.bit index.toNat with
                | true =>
                    have step : w.step profile r table =
                        ({ w with ahead := rest }.answer index false, r, table) := by
                      simp [Writer.step, stopped, stage, ahead,
                        Recorder.claim_of_taken wellFormed allowed taken]
                    rw [step]
                    exact .lose stopped stage ahead taken
                | false =>
                    have step : w.step profile r table =
                        ({ w with ahead := rest, stage := .reserving index },
                          { r with failed := r.failed.insert index.toNat }, table) := by
                      simp [Writer.step, stopped, stage, ahead,
                        Recorder.claim_of_free wellFormed allowed inside taken]
                    rw [step]
                    exact .win stopped stage ahead inside taken
              · have beyond := Nat.le_of_not_lt inside
                have step : w.step profile r table =
                    (w.halt (.regionOutOfRange index.toNat r.failed.capacity), r, table) := by
                  simp [Writer.step, stopped, stage, ahead, Recorder.claim_of_le allowed beyond]
                rw [step]
                exact .refuse stopped stage ahead beyond
      | reserving index =>
          have step : w.step profile r table =
              ({ w with stage := .storing index r.journal.cursor },
                { r with journal := r.journal.reserve.2 }, table) := by
            simp [Writer.step, stopped, stage, Recorder.reserve, Journal.reserve]
          rw [step]
          exact .reserve stopped stage
      | storing index slot =>
          have inside := slots index slot stage
          have step : w.step profile r table =
              ({ w with stage := .noting index },
                { r with
                  journal :=
                    { r.journal with slots := r.journal.slots.setIfInBounds slot.toNat index } },
                table) := by
            simp [Writer.step, stopped, stage, Recorder.store, Journal.store, inside]
          rw [step]
          exact .store stopped stage inside
      | noting index =>
          rcases result : table.note index with ⟨fault | _, after⟩
          · have lost : (table.note index).1 = .error fault := congrArg Prod.fst result
            have same : after = table := by
              rw [← Table.note_of_error lost, result]
            have step : w.step profile r table = (w.halt fault, r, table) := by
              simp [Writer.step, stopped, stage, result, same]
            rw [step]
            exact .strand stopped stage lost
          · have told : (table.note index).1 = .ok () := congrArg Prod.fst result
            have step : w.step profile r table = (w.answer index true, r, (table.note index).2) := by
              simp [Writer.step, stopped, stage, result]
            rw [step]
            exact .note stopped stage told

namespace Recording

inductive Advance : Recording τ → Recording τ → Prop where
  | idle (race : Recording τ) : Advance race race
  | move {w w' : Writer} {r r' : Recorder} {table table' : Table τ} (before after : List Writer)
      (moved : Move (w, r, table) (w', r', table')) :
      Advance ⟨r, table, before ++ w :: after⟩ ⟨r', table', before ++ w' :: after⟩

/-- If every step of a thread is a move, every step of the race is an advance. -/
theorem step_advance {profile : Profile} {race : Recording τ}
    (moves : ∀ w ∈ race.writers,
      Move (w, race.recorder, race.table) (w.step profile race.recorder race.table))
    (thread : Nat) : Advance race (race.step profile thread) := by
  unfold step
  cases found : race.writers[thread]? with
  | none => exact .idle race
  | some w =>
      have moved := moves w (List.mem_of_getElem? found)
      obtain ⟨recorder, table, writers⟩ := race
      obtain ⟨before, after, rfl, changed⟩ := exists_turn found
      dsimp only at moved ⊢
      rw [changed]
      exact .move before after moved

end Recording

end Evacuation.Race
