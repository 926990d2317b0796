import Mathlib.Data.List.Permutation
import Evacuation.Proofs.Race.Election
import Evacuation.Proofs.Race.Progress

/-!
# Races as calls made one after another

A recording decides its answer in the step that claims the region, and its place in the list in the step
that reserves a slot.  If every thread makes whole calls, one after another and in the order of the
claims of a race, each call is answered as in the race, and each thread is stopped by the same fault if
any.  The list then has the regions in the order in which they were claimed, and the list of the race has
the same regions in the order in which their slots were reserved.  A winner that is held up between the
two steps is overtaken in the list.

`Serialises` ties a race to the calls made so far, and one step carries it on; `serial_run_start` is what
follows for every interleaving.
-/

namespace Evacuation.Race

/-- What is seen early comes before what is seen later only. -/
theorem pair_sublist {α : Type} {early all : List α} (grown : early <+: all) {a b : α}
    (seen : a ∈ early) (last : b ∈ all) (unseen : b ∉ early) : [a, b].Sublist all := by
  obtain ⟨rest, rfl⟩ := grown
  have later : b ∈ rest := (List.mem_append.mp last).resolve_left unseen
  exact (List.singleton_sublist.mpr seen).append (List.singleton_sublist.mpr later)

/-! ## Whole calls -/

namespace Writer

def claims (w : Writer) : Bool :=
  w.stop.isNone && w.stage == .ready && !w.ahead.isEmpty

theorem claims_of_ready {w : Writer} (running : w.stop = none) (ready : w.stage = .ready)
    {index : UInt32} {rest : List UInt32} (ahead : w.ahead = index :: rest) : w.claims = true := by
  simp [claims, running, ready, ahead]

theorem claims_of_finished {w : Writer} (finished : w.finished = true) : w.claims = false := by
  unfold Writer.finished at finished
  cases stopped : w.stop with
  | some fault => simp [claims, stopped]
  | none =>
      simp only [stopped, Option.isSome_none, Bool.false_or, Bool.and_eq_true] at finished
      simp [claims, finished.2]

theorem claims_of_busy {w : Writer} (busy : w.stage ≠ .ready) : w.claims = false := by
  simp [claims, busy]

variable {τ : Type} [Layout τ]

/-- The thread with the recording at hand brought to its end, as the whole call would have ended. -/
def settle (first : Table τ) (w : Writer) : Writer :=
  match w.stage with
  | .ready => w
  | .reserving index | .storing index _ | .noting index =>
    match (first.note index).1 with
    | .ok () => w.answer index true
    | .error fault => { w with ahead := index :: w.ahead, stage := .ready, stop := some fault }

theorem settle_of_ready (first : Table τ) {w : Writer} (ready : w.stage = .ready) :
    w.settle first = w := by
  rw [settle, ready]

/-- One whole call of a thread, if it has one to make. -/
def call (profile : Profile) (w : Writer) (r : Recorder) (table : Table τ) :
    Writer × Recorder × Table τ :=
  match w.stop, w.ahead with
  | none, index :: rest =>
    match r.record profile table index with
    | ⟨.error fault, (r, table), _⟩ => (w.halt fault, r, table)
    | ⟨.ok won, (r, table), _⟩ => ({ w with ahead := rest }.answer index won, r, table)
  | _, _ => (w, r, table)

end Writer

namespace Recording

variable {τ : Type} [Layout τ]

def call (profile : Profile) (race : Recording τ) (thread : Nat) : Recording τ :=
  match race.writers[thread]? with
  | none => race
  | some w =>
    let (w, recorder, table) := w.call profile race.recorder race.table
    ⟨recorder, table, race.writers.set thread w⟩

/-- The calls of the threads that a list names, one after another. -/
def serially (profile : Profile) (race : Recording τ) (calls : List Nat) : Recording τ :=
  calls.foldl (call profile) race

/-- The threads whose steps are claims, in the order of a schedule. -/
def claimants (profile : Profile) : Recording τ → List Nat → List Nat
  | _, [] => []
  | race, thread :: rest =>
    let later := claimants profile (race.step profile thread) rest
    if (race.writers[thread]?).any Writer.claims then thread :: later else later

theorem claimants_append (profile : Profile) (race : Recording τ) (first rest : List Nat) :
    race.claimants profile (first ++ rest) =
      race.claimants profile first ++ (race.run profile first).claimants profile rest := by
  induction first generalizing race with
  | nil => rfl
  | cons thread first ih =>
      rw [List.cons_append, claimants, claimants, ih, run_cons]
      split <;> rfl

theorem serially_append (profile : Profile) (race : Recording τ) (first rest : List Nat) :
    race.serially profile (first ++ rest) =
      (race.serially profile first).serially profile rest :=
  List.foldl_append

end Recording

/-! ## One step -/

/-- A recorder and a table that have seen whole calls only, next to a recorder that has the same claims. -/
structure Shadows {τ : Type} [Layout τ] (first : Table τ) (r q : Recorder) (table : Table τ) :
    Prop where
  failed : q.failed = r.failed
  recording : q.phase = .recording
  linked : q.Linked
  note_fst : ∀ index, (table.note index).1 = (first.note index).1

variable {τ : Type} [Layout τ]

section Thread

variable {w w' : Writer} {r r' q : Recorder} {first table table' other : Table τ}

/-- A move is no claim and changes neither the claims nor how the thread will settle, or it is a claim
and a whole call comes to the same. -/
theorem Move.settles (moved : Move (w, r, table) (w', r', table')) (h : Shadows first r q other)
    (same : ∀ index, (table.note index).1 = (first.note index).1) (profile : Profile) :
    (w.claims = false ∧ w'.settle first = w.settle first ∧ r'.failed = r.failed) ∨
      (w.claims = true ∧ ∃ q' other',
        (w.settle first).call profile q other = (w'.settle first, q', other') ∧
          Shadows first r' q' other' ∧ q.journal.entries <+: q'.journal.entries) := by
  have allowed : (profile.checks && q.phase != .recording) = false := by simp [h.recording]
  cases moved with
  | rest finished => exact Or.inl ⟨Writer.claims_of_finished finished, rfl, rfl⟩
  | @refuse _ _ _ index rest running stage ahead beyond =>
      refine Or.inr ⟨Writer.claims_of_ready running stage ahead, q, other, ?_, h, List.prefix_rfl⟩
      rw [← h.failed] at beyond ⊢
      rw [Writer.settle_of_ready first stage, Writer.settle_of_ready first (w := w.halt _) stage]
      simp [Writer.call, running, ahead, Recorder.record_of_le allowed beyond, Outcome.faulted]
  | @lose _ _ _ index rest running stage ahead taken =>
      refine Or.inr ⟨Writer.claims_of_ready running stage ahead, q, other, ?_, h, List.prefix_rfl⟩
      rw [← h.failed] at taken
      rw [Writer.settle_of_ready first stage, Writer.settle_of_ready first rfl]
      simp [Writer.call, running, ahead,
        Recorder.record_of_taken h.linked.wellFormed allowed taken, Outcome.done]
  | @win _ _ _ index rest running stage ahead inside free =>
      rw [← h.failed] at inside free
      refine Or.inr ⟨Writer.claims_of_ready running stage ahead, q.enlist index,
        (other.note index).2, ?_, ⟨?_, h.recording, h.linked.enlist inside free, ?_⟩, ?_⟩
      · rw [Writer.settle_of_ready first stage]
        cases told : (first.note index).1 with
        | ok =>
            simp [Writer.call, running, ahead, h.linked.record_of_free allowed inside free,
              h.note_fst, told, Except.map, Writer.settle, Writer.answer]
        | error fault =>
            simp [Writer.call, running, ahead, h.linked.record_of_free allowed inside free,
              h.note_fst, told, Except.map, Writer.settle, Writer.halt, stage]
      · exact congrArg (·.insert index.toNat) h.failed
      · exact fun j => (other.note_fst_note index j).trans (h.note_fst j)
      · rw [h.linked.entries_enlist inside free]
        exact List.prefix_append _ _
  | @reserve _ _ _ index running stage =>
      refine Or.inl ⟨Writer.claims_of_busy (by simp [stage]), ?_, rfl⟩
      simp [Writer.settle, stage, Writer.answer]
  | store running stage inside =>
      refine Or.inl ⟨Writer.claims_of_busy (by simp [stage]), ?_, rfl⟩
      simp [Writer.settle, stage, Writer.answer]
  | @note _ _ _ index running stage told =>
      refine Or.inl ⟨Writer.claims_of_busy (by simp [stage]), ?_, rfl⟩
      rw [same] at told
      simp [Writer.settle, stage, Writer.answer, told]
  | @strand _ _ _ index _ running stage lost =>
      refine Or.inl ⟨Writer.claims_of_busy (by simp [stage]), ?_, rfl⟩
      rw [same] at lost
      simp [Writer.settle, stage, Writer.halt, lost]

end Thread

namespace Recording

/-- A race over a table whose threads have settled as by the whole calls that were made. -/
structure Serialises (first : Table τ) (race serial : Recording τ) : Prop
    extends Shadows first race.recorder serial.recorder serial.table where
  writers : serial.writers = race.writers.map (Writer.settle first)

theorem serialises_start {r : Recorder} (opened : r.Opened) (table : Table τ)
    (records : List (List UInt32)) :
    Serialises table (start r table records) (start r table records) where
  failed := rfl
  recording := opened.recording
  linked := opened.linked
  note_fst := fun _ => rfl
  writers := by
    rw [start, List.map_map]
    rfl

section Run

variable {first : Table τ} {records : List (List UInt32)} {order : List UInt32}
  {race serial : Recording τ}

/-- One step of a race is one whole call or none, and a call only adds to what is listed. -/
theorem Serialises.step (h : Serialises first race serial) (orderly : Orderly first records order race)
    (profile : Profile) (thread : Nat) :
    let next := if (race.writers[thread]?).any Writer.claims then serial.call profile thread else serial
    Serialises first (race.step profile thread) next ∧
      serial.recorder.journal.entries <+: next.recorder.journal.entries := by
  cases found : race.writers[thread]? with
  | none =>
      have still : race.step profile thread = race := by simp [Recording.step, found]
      rw [still]
      exact ⟨h, List.prefix_rfl⟩
  | some w =>
      have moved := orderly.step_move profile (List.mem_of_getElem? found)
      have stepped : race.step profile thread =
          ⟨(w.step profile race.recorder race.table).2.1,
            (w.step profile race.recorder race.table).2.2,
            race.writers.set thread (w.step profile race.recorder race.table).1⟩ := by
        simp [Recording.step, found]
      generalize w.step profile race.recorder race.table = after at moved stepped
      obtain ⟨w', r', table'⟩ := after
      rw [stepped]
      rcases moved.settles h.toShadows orderly.note_fst profile with
        ⟨idle, settle, failed⟩ | ⟨claims, q', other', called, shadows, grown⟩
      · rw [Option.any_some, idle]
        refine ⟨⟨⟨h.failed.trans failed.symm, h.recording, h.linked, h.note_fst⟩, ?_⟩,
          List.prefix_rfl⟩
        obtain ⟨inside, rfl⟩ := List.getElem?_eq_some_iff.mp found
        rw [List.map_set, settle, ← List.map_set, List.set_getElem_self]
        exact h.writers
      · have settled : serial.writers[thread]? = some (w.settle first) := by
          rw [h.writers, List.getElem?_map, found, Option.map_some]
        have next : serial.call profile thread =
            ⟨q', other', serial.writers.set thread (w'.settle first)⟩ := by
          simp [Recording.call, settled, called]
        rw [Option.any_some, claims, if_pos rfl, next]
        refine ⟨⟨shadows, ?_⟩, grown⟩
        rw [h.writers, List.map_set]

theorem Serialises.run (h : Serialises first race serial) (orderly : Orderly first records order race)
    (profile : Profile) (schedule : List Nat) :
    Serialises first (race.run profile schedule)
        (serial.serially profile (race.claimants profile schedule)) ∧
      serial.recorder.journal.entries <+:
        (serial.serially profile (race.claimants profile schedule)).recorder.journal.entries := by
  induction schedule generalizing race serial order with
  | nil => exact ⟨h, List.prefix_rfl⟩
  | cons thread rest ih =>
      obtain ⟨stepped, grown⟩ := h.step orderly profile thread
      obtain ⟨_, _, orderly⟩ := orderly.advance (orderly.step_advance profile thread)
      obtain ⟨later, more⟩ := ih stepped orderly
      have calls : serial.serially profile (race.claimants profile (thread :: rest)) =
          (if (race.writers[thread]?).any Writer.claims then serial.call profile thread
            else serial).serially profile ((race.step profile thread).claimants profile rest) := by
        rw [claimants]
        split <;> rfl
      rw [calls]
      exact ⟨later, grown.trans more⟩

/-- The regions that the calls have listed are those that are claimed. -/
theorem Serialises.mem_entries_iff (h : Serialises first race serial) {index : UInt32} :
    index ∈ serial.recorder.journal.entries ↔ race.recorder.failed.bit index.toNat = true := by
  rw [← h.failed]
  exact h.linked.listed.mem_iff index

/-- A thread at its end shows the answers and the fault of its whole calls. -/
theorem Orderly.settled (h : Orderly first records order race) (finished : race.finished = true)
    {w : Writer} (member : w ∈ race.writers) :
    (w.settle first).answers = w.answers ∧ (w.settle first).stop = w.stop := by
  obtain ready | ⟨index, fault, noting, stopped, lost⟩ := h.at_rest finished member
  · rw [Writer.settle_of_ready first ready]
    exact ⟨rfl, rfl⟩
  · simp [Writer.settle, noting, lost, stopped, Writer.answers]

/-- Once every thread of a race is finished, the calls have listed the same regions. -/
theorem Serialises.perm_entries (h : Serialises first race serial)
    (orderly : Orderly first records order race) (finished : race.finished = true) :
    race.recorder.journal.entries.Perm serial.recorder.journal.entries := by
  have listed := (orderly.linked finished).listed
  rw [List.perm_ext_iff_of_nodup listed.nodup h.linked.listed.nodup]
  intro index
  rw [h.mem_entries_iff]
  exact listed.mem_iff index

/-- What is listed first once every thread is finished had its slot reserved first. -/
theorem Orderly.reserved_first (h : Orderly first records order race) {profile : Profile}
    {late : List Nat} (finished : (race.run profile late).finished = true) {a b : UInt32}
    (reserved : a ∈ race.listed) (last : b ∈ (race.run profile late).recorder.journal.entries)
    (unreserved : b ∉ race.listed) :
    [a, b].Sublist (race.run profile late).recorder.journal.entries := by
  obtain ⟨order', grown, orderly, _⟩ := h.run profile late
  rw [orderly.entries_eq finished] at last ⊢
  exact pair_sublist grown (h.slots.perm.mem_iff.mpr reserved) last
    (mt h.slots.perm.mem_iff.mp unreserved)

end Run

/-! ## Every interleaving -/

/-- What the run of a schedule has in common with whole calls in the order of its claims. -/
structure AsCalls (profile : Profile) (first : Recording τ) (schedule : List Nat) : Prop where
  answers : (first.serially profile (first.claimants profile schedule)).writers.map Writer.answers =
    (first.run profile schedule).writers.map Writer.answers
  stops : (first.serially profile (first.claimants profile schedule)).writers.map Writer.stop =
    (first.run profile schedule).writers.map Writer.stop
  entries_perm : (first.run profile schedule).recorder.journal.entries.Perm
    (first.serially profile (first.claimants profile schedule)).recorder.journal.entries
  /-- The calls list the regions in the order in which they were claimed. -/
  claimed : ∀ early late, schedule = early ++ late →
    ∀ a b, b ∈ (first.run profile schedule).recorder.journal.entries →
      (first.run profile early).recorder.failed.bit a.toNat = true →
      (first.run profile early).recorder.failed.bit b.toNat = false →
      [a, b].Sublist
        (first.serially profile (first.claimants profile schedule)).recorder.journal.entries
  /-- The run lists the regions in the order in which their slots were reserved. -/
  reserved : ∀ early late, schedule = early ++ late →
    ∀ a b, b ∈ (first.run profile schedule).recorder.journal.entries →
      a ∈ (first.run profile early).listed → b ∉ (first.run profile early).listed →
      [a, b].Sublist (first.run profile schedule).recorder.journal.entries

/-- Every interleaving can be carried on until every thread has come to its end.  The threads are then
answered and stopped as if they had made whole calls, one after another in the order of their claims.
Those calls list the regions in the order in which they were claimed, and the race lists the same regions
in the order in which their slots were reserved. -/
theorem serial_run_start {r : Recorder} (opened : r.Opened) (table : Table τ) (profile : Profile)
    (records : List (List UInt32)) (schedule : List Nat) :
    ((start r table records).run profile
        (schedule ++ (start r table records).inTurn)).finished = true ∧
      (((start r table records).run profile schedule).finished = true →
        (start r table records).AsCalls profile schedule) := by
  refine ⟨finished_inTurn profile r table records schedule, fun finished => ?_⟩
  have starts := orderly_start opened table records
  have serialises := serialises_start opened table records
  obtain ⟨_, _, orderly, _⟩ := starts.run profile schedule
  have calls := (serialises.run starts profile schedule).1
  have perm := calls.perm_entries orderly finished
  refine ⟨?_, ?_, perm, ?_, ?_⟩
  · rw [calls.writers, List.map_map]
    exact List.map_congr_left fun w member => (orderly.settled finished member).1
  · rw [calls.writers, List.map_map]
    exact List.map_congr_left fun w member => (orderly.settled finished member).2
  · rintro early late rfl a b last claimed free
    obtain ⟨_, _, midway, _⟩ := starts.run profile early
    have begun := (serialises.run starts profile early).1
    have grown := (begun.run midway profile late).2
    rw [← serially_append, ← claimants_append] at grown
    exact pair_sublist grown (begun.mem_entries_iff.mpr claimed) (perm.mem_iff.mp last)
      (mt begun.mem_entries_iff.mp (Bool.eq_false_iff.mp free))
  · rintro early late rfl a b last reserved unreserved
    obtain ⟨_, _, midway, _⟩ := starts.run profile early
    rw [run_append] at finished last ⊢
    exact midway.reserved_first finished reserved last unreserved

/-- Two threads race over a table that has lost region 1.  The winner of region 0 reserves its slot
before the other goes on; the other is stopped when it is to tell region 1. -/
theorem serial_run_start_two_threads :
    let r := ((Recorder.ofSize 2).beginPause .debug 2 2 .zero).state.1
    let first := start r ⟨Plan.growing 1, .ofSize 2⟩ [[0], [0, 1, 9]]
    let schedule := [0, 1, 0, 1, 1, 1, 0, 1, 0]
    r.Opened ∧ (first.run .debug schedule).finished = true ∧
      (first.run .debug schedule).writers.map Writer.stop = [none, some (.notCommitted 1)] ∧
      first.claimants .debug schedule = [0, 1, 1] ∧ first.AsCalls .debug schedule := by
  intro r first schedule
  have begun : ((Recorder.ofSize 2).beginPause .debug 2 2 .zero).result = .ok () := rfl
  have opened : r.Opened := (Recorder.blank_ofSize 2).linked.opened begun
  have finished : (first.run .debug schedule).finished = true := by decide +kernel
  refine ⟨opened, finished, by decide +kernel, by decide +kernel, ?_⟩
  exact (serial_run_start (τ := Plan) opened ⟨.growing 1, .ofSize 2⟩ .debug _ _).2 finished

/-- Thread 0 claims region 0 and is held up before it reserves a slot.  Thread 1 is told that region 0
was recorded, and records region 1.  The list has region 1 first, though region 0 was claimed first,
and the calls have no order in which they are answered so and list the regions so. -/
theorem serial_run_start_overtaken :
    let r := ((Recorder.ofSize 2).beginPause .debug 2 2 .zero).state.1
    let first := start r (Table.ofSize 2) [[0], [0, 1]]
    let moment := first.run .debug [0]
    let race := moment.run .debug [1, 1, 1, 1, 1, 0, 0, 0]
    race.finished = true ∧
      moment.recorder.failed.bit 0 = true ∧ moment.recorder.failed.bit 1 = false ∧
      race.recorder.journal.entries = [1, 0] ∧
      ∀ calls : List Nat, calls.Perm [0, 1, 1] →
        (first.serially .debug calls).writers.map Writer.answers =
            race.writers.map Writer.answers →
          (first.serially .debug calls).recorder.journal.entries ≠
            race.recorder.journal.entries := by
  intro r first moment race
  have each : ∀ calls ∈ [0, 1, 1].permutations',
      (first.serially .debug calls).writers.map Writer.answers =
          race.writers.map Writer.answers →
        (first.serially .debug calls).recorder.journal.entries ≠
          race.recorder.journal.entries := by decide +kernel
  exact ⟨by decide +kernel, by decide +kernel, by decide +kernel, by decide +kernel,
    fun calls same => each calls (List.mem_permutations'.mpr same)⟩

end Recording

end Evacuation.Race
