import Evacuation.Proofs.Recorder.Linked
import Evacuation.Proofs.Table.Notes
import Evacuation.Recorder.Series

/-!
# What a series of recordings leaves

A progression is recorded as the list of its indices is.  Of the regions in a series some are won:
their claims were free.  The winners are listed, reported and told in the order of the series, and
nothing else of the recorder or the table changes; the last winner may be one that the table could not
tell.
-/

namespace Evacuation

def Series.tally : Series → Except Fault Nat
  | ⟨wins, none⟩ => .ok (wins.count true)
  | ⟨_, some fault⟩ => .error fault

def Outcome.tally {σ : Type} (o : Outcome σ Series) : Outcome σ Nat :=
  ⟨o.result.bind Series.tally, o.state, o.events⟩

/-- The events that list regions under a span, the first of them in the given slot. -/
def Event.listings (span : Option UInt64) : (slot : UInt64) → List UInt32 → List Event
  | _, [] => []
  | slot, region :: rest => .regionRecorded span region slot :: listings span (slot + 1) rest

theorem Event.listings_append (span : Option UInt64) (slot : UInt64) (first more : List UInt32) :
    listings span slot (first ++ more) =
      listings span slot first ++ listings span (slot + UInt64.ofNat first.length) more := by
  induction first generalizing slot with
  | nil => simp [listings]
  | cons region rest ih =>
      have next : slot + UInt64.ofNat (rest.length + 1) = slot + 1 + UInt64.ofNat rest.length := by
        rw [UInt64.ofNat_add, UInt64.add_comm (UInt64.ofNat rest.length), UInt64.add_assoc]
        rfl
      rw [List.cons_append, listings, listings, ih, List.length_cons, next, List.cons_append]

def progression (first limit : UInt32) (stride : Nat) : List UInt32 :=
  (List.range' first.toNat ((limit.toNat - first.toNat + (stride - 1)) / stride) stride).map
    UInt32.ofNat

namespace Recorder

variable {τ : Type} [Layout τ] {profile : Profile} {r : Recorder} {table : Table τ} {index : UInt32}

/-! ## Series -/

theorem recordAll_of_error {fault : Fault} {state : Recorder × Table τ} {events : List Event}
    (first : r.record profile table index = ⟨.error fault, state, events⟩) (rest : List UInt32) :
    r.recordAll profile table (index :: rest) = .done ⟨[], some fault⟩ state events := by
  rw [recordAll_cons, first]

theorem recordAll_of_ok {won : Bool} {state : Recorder × Table τ} {events : List Event}
    (first : r.record profile table index = ⟨.ok won, state, events⟩) (rest : List UInt32) :
    r.recordAll profile table (index :: rest) =
      ((state.1.recordAll profile state.2 rest).map fun series =>
        { series with wins := won :: series.wins }).after events := by
  rw [recordAll_cons, first]

/-- A series always answers; a fault ends it and stands in the answer. -/
theorem recordAll_result (profile : Profile) (r : Recorder) (table : Table τ)
    (indices : List UInt32) : ∃ series, (r.recordAll profile table indices).result = .ok series := by
  induction indices generalizing r table with
  | nil => exact ⟨_, rfl⟩
  | cons index rest ih =>
      rcases first : r.record profile table index with ⟨fault | won, state, events⟩
      · exact ⟨_, congrArg Outcome.result (recordAll_of_error first rest)⟩
      · obtain ⟨series, others⟩ := ih state.1 state.2
        rw [recordAll_of_ok first]
        exact ⟨_, congrArg (Except.map _) others⟩

/-- Steps through a progression record the list of its indices and tally the answers. -/
theorem recordEvery_eq (profile : Profile) (stride : Nat) (r : Recorder) (table : Table τ)
    (steps index : Nat) :
    r.recordEvery profile stride table steps index =
      (r.recordAll profile table ((List.range' index steps stride).map UInt32.ofNat)).tally := by
  induction steps generalizing index r table with
  | zero => rfl
  | succ steps ih =>
      rw [recordEvery_succ, List.range'_succ, List.map_cons]
      rcases first : r.record profile table (UInt32.ofNat index) with ⟨fault | won, state, events⟩
      · rw [recordAll_of_error first]
        rfl
      · rw [recordAll_of_ok first]
        dsimp only
        rw [ih]
        obtain ⟨⟨wins, stop⟩, answered⟩ := recordAll_result profile state.1 state.2
          ((List.range' (index + stride) steps stride).map UInt32.ofNat)
        cases stop <;> cases won <;>
          simp [Outcome.after, Outcome.map, Outcome.tally, answered, Except.map, Except.bind,
            Series.tally, Nat.add_comm 1]

theorem recordRange_eq (profile : Profile) (r : Recorder) (table : Table τ) (first limit : UInt32)
    (stride : Nat) :
    r.recordRange profile table first limit stride =
      (r.recordAll profile table (progression first limit stride)).tally :=
  recordEvery_eq profile stride r table _ first.toNat

/-! ## Winners -/

def wins (profile : Profile) (r : Recorder) (index : UInt32) : Bool :=
  match (r.claim profile index).1 with
  | .ok won => won
  | .error _ => false

/-- The regions of a series whose claims are won, up to the recording that ends it. -/
def winners (profile : Profile) (r : Recorder) (table : Table τ) : List UInt32 → List UInt32
  | [] => []
  | index :: rest =>
    let outcome := r.record profile table index
    let later :=
      match outcome.result with
      | .ok _ => winners profile outcome.state.1 outcome.state.2 rest
      | .error _ => []
    if r.wins profile index then index :: later else later

theorem winners_singleton (profile : Profile) (r : Recorder) (table : Table τ) (index : UInt32) :
    r.winners profile table [index] = if r.wins profile index then [index] else [] := by
  cases answered : (r.record profile table index).result <;> simp [winners, answered]

def enlistAll (r : Recorder) (indices : List UInt32) : Recorder :=
  indices.foldl enlist r

theorem phase_enlistAll (r : Recorder) (indices : List UInt32) :
    (r.enlistAll indices).phase = r.phase := by
  induction indices generalizing r with
  | nil => rfl
  | cons index rest ih => exact ih (r.enlist index)

theorem pauseId_enlistAll (r : Recorder) (indices : List UInt32) :
    (r.enlistAll indices).pauseId = r.pauseId := by
  induction indices generalizing r with
  | nil => rfl
  | cons index rest ih => exact ih (r.enlist index)

theorem span_enlistAll (r : Recorder) (indices : List UInt32) :
    (r.enlistAll indices).span = r.span := by
  induction indices generalizing r with
  | nil => rfl
  | cons index rest ih => exact ih (r.enlist index)

theorem capacity_enlistAll (r : Recorder) (indices : List UInt32) :
    (r.enlistAll indices).failed.capacity = r.failed.capacity := by
  induction indices generalizing r with
  | nil => rfl
  | cons index rest ih => exact ih (r.enlist index)

/-- A series is refused altogether where its first recording is refused by the phase. -/
theorem winners_of_refused (refused : (profile.checks && r.phase != .recording) = true)
    (table : Table τ) (indices : List UInt32) : r.winners profile table indices = [] := by
  cases indices with
  | nil => rfl
  | cons index rest =>
      simp [winners, wins, claim, refused, record_of_refused refused table index, Outcome.faulted]

namespace Linked

/-- A recording faults and changes nothing, loses the claim, or wins it. -/
theorem claim_record (h : r.Linked) (profile : Profile) (table : Table τ) (index : UInt32) :
    (∃ fault, r.wins profile index = false ∧
        r.record profile table index = .faulted fault (r, table) []) ∨
      (r.wins profile index = false ∧ r.record profile table index = .done false (r, table) []) ∨
      (index.toNat < r.failed.capacity ∧ r.failed.bit index.toNat = false ∧
        r.wins profile index = true ∧
        r.record profile table index =
          ⟨(table.note index).1.map fun () => true, (r.enlist index, (table.note index).2),
            [.regionRecorded r.span index r.journal.cursor]⟩) := by
  cases allowed : profile.checks && r.phase != .recording with
  | true =>
      refine Or.inl ⟨.recordOutside r.phase, ?_, ?_⟩
      · simp [wins, claim, allowed]
      · exact record_of_refused allowed table index
  | false =>
      obtain ⟨refused, _⟩ | ⟨beyond, same⟩ | ⟨taken, same⟩ | ⟨inside, free, same⟩ :=
        h.record profile table index
      · rw [allowed] at refused
        cases refused
      · refine Or.inl ⟨_, ?_, same⟩
        rw [wins, claim_of_le allowed beyond]
      · refine Or.inr (Or.inl ⟨?_, same⟩)
        rw [wins, claim_of_taken h.wellFormed allowed taken]
      · refine Or.inr (Or.inr ⟨inside, free, ?_, same⟩)
        rw [wins, claim_of_free h.wellFormed allowed inside free]

/-- The first recording of a series ends it or not, with a winner or without. -/
theorem series_cases (h : r.Linked) (profile : Profile) (table : Table τ) (index : UInt32)
    (rest : List UInt32) :
    (r.winners profile table (index :: rest) = [] ∧
        (r.recordAll profile table (index :: rest)).state = (r, table) ∧
        (r.recordAll profile table (index :: rest)).events = []) ∨
      (r.winners profile table (index :: rest) = r.winners profile table rest ∧
        (r.recordAll profile table (index :: rest)).state =
          (r.recordAll profile table rest).state ∧
        (r.recordAll profile table (index :: rest)).events =
          (r.recordAll profile table rest).events) ∨
      (index.toNat < r.failed.capacity ∧ r.failed.bit index.toNat = false ∧
        r.winners profile table (index :: rest) = [index] ∧
        (r.recordAll profile table (index :: rest)).state =
          (r.enlist index, (table.note index).2) ∧
        (r.recordAll profile table (index :: rest)).events =
          [.regionRecorded r.span index r.journal.cursor]) ∨
      (index.toNat < r.failed.capacity ∧ r.failed.bit index.toNat = false ∧
        r.winners profile table (index :: rest) =
          index :: (r.enlist index).winners profile (table.note index).2 rest ∧
        (r.recordAll profile table (index :: rest)).state =
          ((r.enlist index).recordAll profile (table.note index).2 rest).state ∧
        (r.recordAll profile table (index :: rest)).events =
          .regionRecorded r.span index r.journal.cursor ::
            ((r.enlist index).recordAll profile (table.note index).2 rest).events) := by
  obtain ⟨fault, lost, same⟩ | ⟨lost, same⟩ | ⟨inside, free, won, same⟩ :=
    h.claim_record profile table index
  · refine Or.inl ⟨?_, ?_⟩
    · simp [winners, lost, same, Outcome.faulted]
    · rw [recordAll_of_error same]
      exact ⟨rfl, rfl⟩
  · refine Or.inr (Or.inl ⟨?_, ?_⟩)
    · simp [winners, lost, same, Outcome.done]
    · rw [recordAll_of_ok same]
      exact ⟨rfl, rfl⟩
  · rcases told : (table.note index).1 with fault | _
    · rw [told] at same
      refine Or.inr (Or.inr (Or.inl ⟨inside, free, ?_, ?_⟩))
      · simp [winners, won, same, Except.map]
      · rw [recordAll_of_error same]
        exact ⟨rfl, rfl⟩
    · rw [told] at same
      refine Or.inr (Or.inr (Or.inr ⟨inside, free, ?_, ?_⟩))
      · simp [winners, won, same, Except.map]
      · rw [recordAll_of_ok same]
        exact ⟨rfl, rfl⟩

/-- A series lists its winners and tells them. -/
theorem recordAll (h : r.Linked) (profile : Profile) (table : Table τ) (indices : List UInt32) :
    (r.recordAll profile table indices).state =
      (r.enlistAll (r.winners profile table indices),
        table.tell (r.winners profile table indices)) := by
  induction indices generalizing r table with
  | nil => rfl
  | cons index rest ih =>
      obtain ⟨won, state, _⟩ | ⟨won, state, _⟩ | ⟨_, _, won, state, _⟩ |
          ⟨inside, free, won, state, _⟩ := h.series_cases profile table index rest
      · rw [won, state]
        rfl
      · rw [won, state]
        exact ih h table
      · rw [won, state]
        rfl
      · rw [won, state]
        exact ih (h.enlist inside free) (table.note index).2

/-- A series reports its winners, in the slots that follow each other from the first free one on. -/
theorem events_recordAll (h : r.Linked) (profile : Profile) (table : Table τ)
    (indices : List UInt32) :
    (r.recordAll profile table indices).events =
      Event.listings r.span r.journal.cursor (r.winners profile table indices) := by
  induction indices generalizing r table with
  | nil => rfl
  | cons index rest ih =>
      obtain ⟨won, _, events⟩ | ⟨won, _, events⟩ | ⟨_, _, won, _, events⟩ |
          ⟨inside, free, won, _, events⟩ := h.series_cases profile table index rest
      · rw [won, events]
        rfl
      · rw [won, events]
        exact ih h table
      · rw [won, events]
        rfl
      · rw [won, events, ih (h.enlist inside free)]
        rfl

/-- The winners of a series come after what was listed before it. -/
theorem entries_enlistAll (h : r.Linked) (profile : Profile) (table : Table τ)
    (indices : List UInt32) :
    (r.enlistAll (r.winners profile table indices)).journal.entries =
      r.journal.entries ++ r.winners profile table indices := by
  induction indices generalizing r table with
  | nil => exact (List.append_nil _).symm
  | cons index rest ih =>
      obtain ⟨won, _⟩ | ⟨won, _⟩ | ⟨inside, free, won, _⟩ | ⟨inside, free, won, _⟩ :=
        h.series_cases profile table index rest
      · rw [won]
        exact (List.append_nil _).symm
      · rw [won]
        exact ih h table
      · rw [won]
        exact h.entries_enlist inside free
      · have others := ih (h.enlist inside free) (table.note index).2
        rw [h.entries_enlist inside free, List.append_assoc] at others
        rw [won]
        exact others

/-- The winners of a series find room in the journal, and leave the link. -/
theorem enlistAll (h : r.Linked) (profile : Profile) (table : Table τ) (indices : List UInt32) :
    (r.enlistAll (r.winners profile table indices)).Linked ∧
      (r.enlistAll (r.winners profile table indices)).journal.length =
        r.journal.length + (r.winners profile table indices).length := by
  induction indices generalizing r table with
  | nil => exact ⟨h, rfl⟩
  | cons index rest ih =>
      have longer (free : r.failed.bit index.toNat = false)
          (inside : index.toNat < r.failed.capacity) :
          (r.enlist index).journal.length = r.journal.length + 1 :=
        Journal.length_push (h.slot_of_free inside free) (h.room ▸ h.narrow) index
      obtain ⟨won, _⟩ | ⟨won, _⟩ | ⟨inside, free, won, _⟩ | ⟨inside, free, won, _⟩ :=
        h.series_cases profile table index rest
      · rw [won]
        exact ⟨h, rfl⟩
      · rw [won]
        exact ih h table
      · rw [won]
        exact ⟨h.enlist inside free, longer free inside⟩
      · obtain ⟨linked, length⟩ := ih (h.enlist inside free) (table.note index).2
        rw [won]
        refine ⟨linked, length.trans ?_⟩
        rw [longer free inside, List.length_cons]
        omega

end Linked

end Recorder

end Evacuation
