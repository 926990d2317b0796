import Evacuation.Race.Recording
import Evacuation.Race.Walking

/-!
# Coming to an end

No thread of a race waits for another: whatever the others have done, each of its own steps brings it
nearer to its end, at most four for a region to record and two for an entry to walk over.  So a
schedule that gives every thread its turns brings a race to its end, in whatever order they come.
-/

namespace Evacuation.Race

/-! ## Turns and steps left -/

section Turns

variable {α σ : Type}

def leftAt (left : α → Nat) (threads : List α) (thread : Nat) : Nat :=
  (threads[thread]?).elim 0 left

theorem leftAt_set_le {left : α → Nat} {threads : List α} {turn : Nat} {x y : α}
    (found : threads[turn]? = some x) (nearer : left y ≤ left x - 1) (thread : Nat) :
    leftAt left (threads.set turn y) thread ≤
      leftAt left threads thread - if turn = thread then 1 else 0 := by
  obtain ⟨inside, _⟩ := List.getElem?_eq_some_iff.mp found
  unfold leftAt
  by_cases mine : turn = thread
  · subst mine
    rw [List.getElem?_set_self inside, found, if_pos rfl]
    exact nearer
  · simp [List.getElem?_set_ne mine, mine]

theorem leftAt_le_of_none {left : α → Nat} {threads : List α} {turn : Nat}
    (none : threads[turn]? = none) (thread : Nat) :
    leftAt left threads thread ≤ leftAt left threads thread - if turn = thread then 1 else 0 := by
  by_cases mine : turn = thread
  · subst mine
    simp [leftAt, none]
  · simp [mine]

/-- When each turn of a thread brings it nearer to its end, so do all of its turns together. -/
theorem leftAt_foldl_le {left : α → Nat} {threads : σ → List α} {step : σ → Nat → σ}
    (once : ∀ s turn thread, leftAt left (threads (step s turn)) thread ≤
      leftAt left (threads s) thread - if turn = thread then 1 else 0)
    (schedule : List Nat) (s : σ) (thread : Nat) :
    leftAt left (threads (schedule.foldl step s)) thread ≤
      leftAt left (threads s) thread - schedule.count thread := by
  induction schedule generalizing s with
  | nil => exact Nat.le_refl _
  | cons turn rest ih =>
      have first := once s turn thread
      have later := ih (step s turn)
      rw [List.foldl_cons, List.count_cons]
      by_cases mine : turn = thread
      · simp only [mine, if_true, beq_self_eq_true] at first later ⊢
        omega
      · simp only [mine, if_false, beq_iff_eq] at first ⊢
        omega

/-- A schedule that gives each thread as many turns as it has steps left brings all to their end. -/
theorem all_finished_of_turns {left : α → Nat} {finished : α → Bool} {threads : σ → List α}
    {step : σ → Nat → σ}
    (once : ∀ s turn thread, leftAt left (threads (step s turn)) thread ≤
      leftAt left (threads s) thread - if turn = thread then 1 else 0)
    (done : ∀ x, left x = 0 → finished x = true) {schedule : List Nat} {s : σ}
    (turns : ∀ thread, leftAt left (threads s) thread ≤ schedule.count thread) :
    (threads (schedule.foldl step s)).all finished = true := by
  rw [List.all_eq_true]
  intro x member
  obtain ⟨thread, inside, rfl⟩ := List.mem_iff_getElem.mp member
  have nearer := leftAt_foldl_le once schedule s thread
  have enough := turns thread
  have zero : leftAt left (threads (schedule.foldl step s)) thread = 0 := by omega
  rw [leftAt, List.getElem?_eq_getElem inside] at zero
  exact done _ zero

/-- In turn, each thread has as many steps as it is given. -/
theorem count_inTurn (given : α → Nat) (threads : List α) (start thread : Nat) :
    ((threads.zipIdx start).flatMap fun (x, i) => List.replicate (given x) i).count (start + thread) =
      leftAt given threads thread := by
  induction threads generalizing start thread with
  | nil => rfl
  | cons x rest ih =>
      rw [List.zipIdx_cons, List.flatMap_cons, List.count_append, List.count_replicate]
      cases thread with
      | zero =>
          have later : ((rest.zipIdx (start + 1)).flatMap fun (x, i) =>
              List.replicate (given x) i).count start = 0 := by
            rw [List.count_eq_zero]
            intro member
            obtain ⟨⟨y, i⟩, listed, held⟩ := List.mem_flatMap.mp member
            have above := List.le_snd_of_mem_zipIdx listed
            rw [(List.mem_replicate.mp held).2] at above
            exact Nat.lt_irrefl i above
          simp [leftAt, later]
      | succ thread =>
          have place : start + (thread + 1) = start + 1 + thread := by omega
          rw [place, ih]
          simp [leftAt, ← place]

end Turns

/-! ## Recording threads -/

def Stage.stepsLeft : Stage → Nat
  | .ready => 0
  | .reserving _ => 3
  | .storing .. => 2
  | .noting _ => 1

namespace Writer

/-- The largest number of steps that a thread has left. -/
def stepsLeft (w : Writer) : Nat :=
  if w.stop.isSome then 0 else 4 * w.ahead.length + w.stage.stepsLeft

theorem finished_of_stepsLeft {w : Writer} (zero : w.stepsLeft = 0) : w.finished = true := by
  unfold stepsLeft at zero
  unfold finished
  cases stopped : w.stop.isSome with
  | true => rfl
  | false =>
      rw [stopped, if_neg nofun, Nat.add_eq_zero_iff] at zero
      have ready : w.stage = .ready := by
        cases stage : w.stage <;> simp [stage, Stage.stepsLeft] at zero ⊢
      have ahead : w.ahead = [] := List.length_eq_zero_iff.mp (by omega)
      simp [ready, ahead]

variable {τ : Type} [Layout τ]

theorem stepsLeft_step_le (profile : Profile) (w : Writer) (r : Recorder) (table : Table τ) :
    (w.step profile r table).1.stepsLeft ≤ w.stepsLeft - 1 := by
  cases stopped : w.stop with
  | some fault => simp [step, stepsLeft, stopped]
  | none =>
      cases stage : w.stage with
      | ready =>
          cases ahead : w.ahead with
          | nil => simp [step, stepsLeft, stopped, stage, ahead, Stage.stepsLeft]
          | cons index rest =>
              have before : w.stepsLeft = 4 * (rest.length + 1) := by
                simp [stepsLeft, stopped, stage, ahead, Stage.stepsLeft]
              rcases claimed : r.claim profile index with ⟨_ | won, r'⟩
              · simp [step, stepsLeft, stopped, stage, ahead, claimed, halt]
              · have after : (w.step profile r table).1.stepsLeft ≤ 4 * rest.length + 3 := by
                  cases won <;>
                    simp [step, stepsLeft, stopped, stage, ahead, claimed, answer, Stage.stepsLeft]
                omega
      | reserving index => simp [step, stepsLeft, stopped, stage, Stage.stepsLeft]
      | storing index slot =>
          rcases stored : r.store profile slot index with ⟨_ | _, r'⟩ <;>
            simp [step, stepsLeft, stopped, stage, stored, halt, Stage.stepsLeft]
      | noting index =>
          rcases told : table.note index with ⟨_ | _, table'⟩ <;>
            simp [step, stepsLeft, stopped, stage, told, halt, answer, Stage.stepsLeft]

end Writer

/-! ## Walking workers -/

namespace Walker

def stepsLeft (w : Walker) : Nat :=
  if w.stop.isSome then 0 else 2 * w.ahead.length + w.held.toList.length

theorem finished_of_stepsLeft {w : Walker} (zero : w.stepsLeft = 0) : w.finished = true := by
  unfold stepsLeft at zero
  unfold finished
  cases stopped : w.stop.isSome with
  | true => rfl
  | false =>
      rw [stopped, if_neg nofun, Nat.add_eq_zero_iff] at zero
      have held : w.held = none := by simpa using zero.2
      have ahead : w.ahead = [] := List.length_eq_zero_iff.mp (by omega)
      simp [held, ahead]

variable {τ : Type} [Layout τ]

theorem stepsLeft_step_le (journal : Journal) (table : Table τ) (w : Walker) (b : ClaimBoard) :
    (w.step journal table b).1.stepsLeft ≤ w.stepsLeft - 1 := by
  cases stopped : w.stop with
  | some fault => simp [step, stepsLeft, stopped]
  | none =>
      cases held : w.held with
      | some index =>
          cases found : table.region index <;>
            simp [step, stepsLeft, stopped, held, found, halt, visit]
      | none =>
          cases ahead : w.ahead with
          | nil => simp [step, stepsLeft, stopped, held, ahead]
          | cons position rest =>
              have before : w.stepsLeft = 2 * (rest.length + 1) := by
                simp [stepsLeft, stopped, held, ahead]
              rcases tried : claimEntry journal b position with ⟨_ | entry, b'⟩
              · simp [step, stepsLeft, stopped, held, ahead, tried, halt]
              · have after : (w.step journal table b).1.stepsLeft ≤ 2 * rest.length + 1 := by
                  cases entry <;> simp [step, stepsLeft, stopped, held, ahead, tried]
                omega

end Walker

/-! ## Races -/

theorem leftAt_start_le {α β : Type} {left given : α → Nat} {start : β → α} (tasks : List β)
    (within : ∀ task, left (start task) ≤ given (start task)) (thread : Nat) :
    leftAt left (tasks.map start) thread ≤ leftAt given (tasks.map start) thread := by
  unfold leftAt
  rw [List.getElem?_map]
  cases tasks[thread]? with
  | none => exact Nat.le_refl 0
  | some task => exact within task

variable {τ : Type} [Layout τ]

namespace Recording

theorem leftAt_step_le (profile : Profile) (race : Recording τ) (turn thread : Nat) :
    leftAt Writer.stepsLeft (race.step profile turn).writers thread ≤
      leftAt Writer.stepsLeft race.writers thread - if turn = thread then 1 else 0 := by
  unfold step
  cases found : race.writers[turn]? with
  | none => exact leftAt_le_of_none found thread
  | some w =>
      exact leftAt_set_le found (w.stepsLeft_step_le profile race.recorder race.table) thread

/-- Whatever the order of its turns, a thread that has enough of them comes to its end. -/
theorem finished_of_turns (profile : Profile) {race : Recording τ} {schedule : List Nat}
    (turns : ∀ thread, leftAt Writer.stepsLeft race.writers thread ≤ schedule.count thread) :
    (race.run profile schedule).finished = true :=
  all_finished_of_turns (leftAt_step_le profile) (fun _ => Writer.finished_of_stepsLeft) turns

/-- Whatever the threads have done so far, running them in turn brings them to their end. -/
theorem finished_inTurn (profile : Profile) (r : Recorder) (table : Table τ)
    (records : List (List UInt32)) (schedule : List Nat) :
    ((start r table records).run profile
      (schedule ++ (start r table records).inTurn)).finished = true := by
  refine finished_of_turns profile fun thread => ?_
  rw [List.count_append]
  refine Nat.le_add_left_of_le ?_
  have count := count_inTurn (fun w : Writer => 4 * w.ahead.length)
    (start r table records).writers 0 thread
  rw [Nat.zero_add] at count
  rw [inTurn, count]
  have within (indices : List UInt32) :
      (Writer.start indices).stepsLeft ≤ 4 * (Writer.start indices).ahead.length := Nat.le_refl _
  exact leftAt_start_le records within thread

end Recording

namespace Walking

theorem leftAt_step_le (race : Walking τ) (turn thread : Nat) :
    leftAt Walker.stepsLeft (race.step turn).walkers thread ≤
      leftAt Walker.stepsLeft race.walkers thread - if turn = thread then 1 else 0 := by
  unfold step
  cases found : race.walkers[turn]? with
  | none => exact leftAt_le_of_none found thread
  | some w => exact leftAt_set_le found (w.stepsLeft_step_le race.journal race.table race.board) thread

/-- Whatever the order of its turns, a worker that has enough of them comes to its end. -/
theorem finished_of_turns {race : Walking τ} {schedule : List Nat}
    (turns : ∀ worker, leftAt Walker.stepsLeft race.walkers worker ≤ schedule.count worker) :
    (race.run schedule).finished = true :=
  all_finished_of_turns leftAt_step_le (fun _ => Walker.finished_of_stepsLeft) turns

theorem finished_inTurn (profile : Profile) (r : Recorder) (table : Table τ) (board : ClaimBoard)
    (workers : List UInt64) :
    ((start profile r table board workers).run
      (start profile r table board workers).inTurn).finished = true := by
  refine finished_of_turns fun worker => ?_
  have count := count_inTurn (fun w : Walker => 2 * w.ahead.length)
    (start profile r table board workers).walkers 0 worker
  rw [Nat.zero_add] at count
  rw [inTurn, count]
  refine leftAt_start_le workers (fun number => ?_) worker
  cases r.route profile board number with
  | error fault => exact Nat.zero_le _
  | ok positions => exact Nat.le_refl _

end Walking

end Evacuation.Race
