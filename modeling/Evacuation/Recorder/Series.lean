import Evacuation.Recorder.Basic

/-!
# Series of recordings

A series records one region after another, and ends at the first call that faults.  `recordAll` takes
the regions from a list, `recordRange` from an arithmetic progression.

Both go through the regions with the answers and events so far at hand.  The equations `recordAll_cons`
and `recordEvery_succ` say the same without them: a series is its first recording, then the series of
the others.
-/

namespace Evacuation

structure Series where
  wins : List Bool
  stop : Option Fault
  deriving DecidableEq, Repr

namespace Outcome

variable {σ α β : Type}

def after (earlier : List Event) (o : Outcome σ α) : Outcome σ α :=
  { o with events := earlier ++ o.events }

def map (change : α → β) (o : Outcome σ α) : Outcome σ β :=
  { o with result := o.result.map change }

end Outcome

namespace Recorder

variable {τ : Type} [Layout τ]

def recordOnward (profile : Profile) :
    List UInt32 → Recorder → Table τ → Array Bool → Array Event → Outcome (Recorder × Table τ) Series
  | [], r, table, wins, events => .done ⟨wins.toList, none⟩ (r, table) events.toList
  | index :: rest, r, table, wins, events =>
    match r.record profile table index with
    | ⟨.error fault, state, more⟩ => .done ⟨wins.toList, some fault⟩ state (events ++ more).toList
    | ⟨.ok won, (r, table), more⟩ =>
      recordOnward profile rest r table (wins.push won) (events ++ more)

def recordAll (profile : Profile) (r : Recorder) (table : Table τ) (indices : List UInt32) :
    Outcome (Recorder × Table τ) Series :=
  recordOnward profile indices r table #[] #[]

/-- Records `steps` regions, from `index` on and `stride` apart, after a series with so many first
recordings and the given events.  Regions after one that faults are not looked at. -/
def recordSteps (profile : Profile) (stride : Nat) :
    (steps index : Nat) → Recorder → Table τ → (wins : Nat) → Array Event →
      Outcome (Recorder × Table τ) Nat
  | 0, _, r, table, wins, events => .done wins (r, table) events.toList
  | steps + 1, index, r, table, wins, events =>
    match r.record profile table (UInt32.ofNat index) with
    | ⟨.error fault, state, more⟩ => .faulted fault state (events ++ more).toList
    | ⟨.ok won, (r, table), more⟩ =>
      recordSteps profile stride steps (index + stride) r table (wins + won.toNat) (events ++ more)

def recordEvery (profile : Profile) (stride : Nat) (r : Recorder) (table : Table τ)
    (steps index : Nat) : Outcome (Recorder × Table τ) Nat :=
  recordSteps profile stride steps index r table 0 #[]

/-- Records the regions `first`, `first + stride`, … below `limit` and counts the first recordings; a
stride of zero records nothing. -/
def recordRange (profile : Profile) (r : Recorder) (table : Table τ) (first limit : UInt32)
    (stride : Nat) : Outcome (Recorder × Table τ) Nat :=
  let steps := (limit.toNat - first.toNat + (stride - 1)) / stride
  r.recordEvery profile stride table steps first.toNat

/-! ## The series without what came before -/

theorem recordOnward_eq (profile : Profile) (indices : List UInt32) (r : Recorder)
    (table : Table τ) (wins : Array Bool) (events : Array Event) :
    recordOnward profile indices r table wins events =
      ((r.recordAll profile table indices).map fun series =>
        { series with wins := wins.toList ++ series.wins }).after events.toList := by
  induction indices generalizing r table wins events with
  | nil =>
    simp [recordAll, recordOnward, Outcome.done, Outcome.after, Outcome.map, Except.map]
  | cons index rest ih =>
    unfold recordAll recordOnward
    match r.record profile table index with
    | ⟨.error fault, state, more⟩ =>
      simp [Outcome.done, Outcome.after, Outcome.map, Except.map]
    | ⟨.ok won, (r, table), more⟩ =>
      dsimp only
      rw [ih, ih r table (#[].push won)]
      cases later : (r.recordAll profile table rest).result <;>
        simp [Outcome.after, Outcome.map, Except.map, later]

/-- A series is its first recording and, unless that faults, the series of the others. -/
theorem recordAll_cons (profile : Profile) (r : Recorder) (table : Table τ) (index : UInt32)
    (rest : List UInt32) :
    r.recordAll profile table (index :: rest) =
      match r.record profile table index with
      | ⟨.error fault, state, events⟩ => .done ⟨[], some fault⟩ state events
      | ⟨.ok won, (r, table), events⟩ =>
        ((r.recordAll profile table rest).map fun series =>
          { series with wins := won :: series.wins }).after events := by
  rw [recordAll, recordOnward]
  match r.record profile table index with
  | ⟨.error fault, state, events⟩ => simp
  | ⟨.ok won, (r, table), events⟩ => simp [recordOnward_eq]

theorem recordSteps_eq (profile : Profile) (stride steps index : Nat) (r : Recorder)
    (table : Table τ) (wins : Nat) (events : Array Event) :
    recordSteps profile stride steps index r table wins events =
      ((r.recordEvery profile stride table steps index).map (wins + ·)).after events.toList := by
  induction steps generalizing index r table wins events with
  | zero => simp [recordEvery, recordSteps, Outcome.done, Outcome.after, Outcome.map, Except.map]
  | succ steps ih =>
    unfold recordEvery recordSteps
    match r.record profile table (UInt32.ofNat index) with
    | ⟨.error fault, state, more⟩ =>
      simp [Outcome.faulted, Outcome.after, Outcome.map, Except.map]
    | ⟨.ok won, (r, table), more⟩ =>
      dsimp only
      rw [ih, ih (index + stride) r table (0 + won.toNat)]
      cases later : (r.recordEvery profile stride table steps (index + stride)).result <;>
        simp [Outcome.after, Outcome.map, Except.map, later, Nat.add_assoc]

/-- Steps through a progression are the first recording and, unless that faults, the other steps. -/
theorem recordEvery_succ (profile : Profile) (stride : Nat) (r : Recorder) (table : Table τ)
    (steps index : Nat) :
    r.recordEvery profile stride table (steps + 1) index =
      match r.record profile table (UInt32.ofNat index) with
      | ⟨.error fault, state, events⟩ => .faulted fault state events
      | ⟨.ok won, (r, table), events⟩ =>
        ((r.recordEvery profile stride table steps (index + stride)).map
          (won.toNat + ·)).after events := by
  rw [recordEvery, recordSteps]
  match r.record profile table (UInt32.ofNat index) with
  | ⟨.error fault, state, events⟩ => simp
  | ⟨.ok won, (r, table), events⟩ => simp [recordSteps_eq]

end Recorder

end Evacuation
