import Evacuation.Recorder.Basic

/-!
# Races of recording threads

Many threads record regions in one recorder at the same time.  Each thread takes the atomic steps of
`Recorder.record` one by one, and a schedule says which thread takes the next step, so that every
interleaving of the threads is the run of some schedule.  Steps are sequentially consistent.
-/

namespace Evacuation.Race

/-- Where a thread stands within the recording of one region. -/
inductive Stage where
  | ready
  /-- The claim was won; a slot is to be reserved. -/
  | reserving (index : UInt32)
  /-- The slot was reserved; the index is to be stored in it. -/
  | storing (index : UInt32) (slot : UInt64)
  /-- The index was stored; the region is to be told. -/
  | noting (index : UInt32)
  deriving DecidableEq, Repr

/-- A thread that records regions one after another. -/
structure Writer where
  ahead : List UInt32
  stage : Stage
  /-- The recordings completed, latest first, each with its answer. -/
  calls : List (UInt32 × Bool)
  stop : Option Fault
  deriving DecidableEq, Repr

namespace Writer

def start (indices : List UInt32) : Writer :=
  ⟨indices, .ready, [], none⟩

def finished (w : Writer) : Bool :=
  w.stop.isSome || (w.stage == .ready && w.ahead.isEmpty)

def answers (w : Writer) : List (UInt32 × Bool) :=
  w.calls.reverse

def halt (w : Writer) (fault : Fault) : Writer :=
  { w with stop := some fault }

def answer (w : Writer) (index : UInt32) (won : Bool) : Writer :=
  { w with stage := .ready, calls := (index, won) :: w.calls }

theorem answers_answer (w : Writer) (index : UInt32) (won : Bool) :
    (w.answer index won).answers = w.answers ++ [(index, won)] := by
  simp [answer, answers]

variable {τ : Type} [Layout τ]

/-- One atomic step of a thread; a thread that is finished stands still. -/
def step (profile : Profile) (w : Writer) (r : Recorder) (table : Table τ) :
    Writer × Recorder × Table τ :=
  if w.stop.isSome then
    (w, r, table)
  else
    match w.stage with
    | .ready =>
      match w.ahead with
      | [] => (w, r, table)
      | index :: rest =>
        match r.claim profile index with
        | (.error fault, r) => (w.halt fault, r, table)
        | (.ok false, r) => ({ w with ahead := rest }.answer index false, r, table)
        | (.ok true, r) => ({ w with ahead := rest, stage := .reserving index }, r, table)
    | .reserving index =>
      let (slot, r) := r.reserve
      ({ w with stage := .storing index slot }, r, table)
    | .storing index slot =>
      match r.store profile slot index with
      | (.error fault, r) => (w.halt fault, r, table)
      | (.ok (), r) => ({ w with stage := .noting index }, r, table)
    | .noting index =>
      match table.note index with
      | (.error fault, table) => (w.halt fault, r, table)
      | (.ok (), table) => (w.answer index true, r, table)

theorem step_finished (profile : Profile) {w : Writer} (h : w.finished = true) (r : Recorder)
    (table : Table τ) : w.step profile r table = (w, r, table) := by
  unfold finished at h
  unfold step
  cases stopped : w.stop.isSome with
  | true => rfl
  | false =>
    simp only [stopped, Bool.false_or, Bool.and_eq_true, beq_iff_eq, List.isEmpty_iff] at h
    simp [h.1, h.2]

end Writer

structure Recording (τ : Type) where
  recorder : Recorder
  table : Table τ
  writers : List Writer

namespace Recording

variable {τ : Type}

def start (recorder : Recorder) (table : Table τ) (records : List (List UInt32)) : Recording τ :=
  ⟨recorder, table, records.map Writer.start⟩

def finished (race : Recording τ) : Bool :=
  race.writers.all Writer.finished

/-- The schedule in which the threads run one after another, each without a break. -/
def inTurn (race : Recording τ) : List Nat :=
  race.writers.zipIdx.flatMap fun (w, thread) => List.replicate (4 * w.ahead.length) thread

def wins (race : Recording τ) : Nat :=
  (race.writers.flatMap Writer.answers).countP (·.2)

variable [Layout τ]

def step (profile : Profile) (race : Recording τ) (thread : Nat) : Recording τ :=
  match race.writers[thread]? with
  | none => race
  | some w =>
    let (w, recorder, table) := w.step profile race.recorder race.table
    ⟨recorder, table, race.writers.set thread w⟩

def run (profile : Profile) (race : Recording τ) (schedule : List Nat) : Recording τ :=
  schedule.foldl (step profile) race

theorem run_cons (profile : Profile) (race : Recording τ) (thread : Nat) (rest : List Nat) :
    race.run profile (thread :: rest) = (race.step profile thread).run profile rest := rfl

theorem run_append (profile : Profile) (race : Recording τ) (first rest : List Nat) :
    race.run profile (first ++ rest) = (race.run profile first).run profile rest :=
  List.foldl_append

end Recording

end Evacuation.Race
