import Mathlib.Data.List.TakeWhile
import Evacuation.Proofs.Race.Ledger

/-!
# The course of a recording thread

A thread records the indices of its list one after another, and the first index that is out of range
stops it, as does a region that is not there to tell.  `Writer.Follows` says how far it has come.  Where
a thread ends that finds every region does not depend on what the other threads do: it has tried the
indices before the first that is out of range, and no others.
-/

namespace Evacuation.Race

/-- The indices of a list that come before the first that is out of range. -/
def courseWithin (capacity : Nat) (indices : List UInt32) : List UInt32 :=
  indices.takeWhile fun index => decide (index.toNat < capacity)

/-- The fault at the first index of a list that is out of range. -/
def faultBeyond (capacity : Nat) (indices : List UInt32) : Option Fault :=
  (indices.find? fun index => decide (capacity ≤ index.toNat)).map fun index =>
    .regionOutOfRange index.toNat capacity

theorem lt_of_mem_courseWithin {capacity : Nat} {indices : List UInt32} {index : UInt32}
    (member : index ∈ courseWithin capacity indices) : index.toNat < capacity := by
  unfold courseWithin at member
  have passed := List.mem_takeWhile_imp member
  exact of_decide_eq_true passed

section Ends

variable {capacity : Nat} {tried : List UInt32}

theorem courseWithin_of_inside (inside : ∀ index ∈ tried, index.toNat < capacity) :
    courseWithin capacity tried = tried := by
  unfold courseWithin
  rw [List.takeWhile_eq_self_iff]
  intro index member
  exact decide_eq_true (inside index member)

theorem faultBeyond_of_inside (inside : ∀ index ∈ tried, index.toNat < capacity) :
    faultBeyond capacity tried = none := by
  unfold faultBeyond
  rw [Option.map_eq_none_iff, List.find?_eq_none]
  intro index member
  simp [inside index member]

theorem courseWithin_of_beyond (inside : ∀ index ∈ tried, index.toNat < capacity) {index : UInt32}
    (beyond : capacity ≤ index.toNat) (rest : List UInt32) :
    courseWithin capacity (tried ++ index :: rest) = tried := by
  unfold courseWithin
  rw [List.takeWhile_append_of_pos fun j member => decide_eq_true (inside j member)]
  simp [beyond]

theorem faultBeyond_of_beyond (inside : ∀ index ∈ tried, index.toNat < capacity) {index : UInt32}
    (beyond : capacity ≤ index.toNat) (rest : List UInt32) :
    faultBeyond capacity (tried ++ index :: rest) =
      some (.regionOutOfRange index.toNat capacity) := by
  have none : tried.find? (fun index => decide (capacity ≤ index.toNat)) = none := by
    rw [List.find?_eq_none]
    intro index member
    simp [inside index member]
  unfold faultBeyond
  rw [List.find?_append, none]
  simp [beyond]

end Ends

namespace Writer

theorem won_subset_tried (w : Writer) : w.won ⊆ w.tried := by
  intro index member
  rcases List.mem_append.mp member with answered | held
  · obtain ⟨call, found, rfl⟩ := List.mem_map.mp answered
    exact List.mem_append_left _ (List.mem_map_of_mem (List.mem_of_mem_filter found))
  · exact List.mem_append_right _ held

variable {τ : Type} [Layout τ] {first : Table τ}

/-- A thread has come some way through the indices it is to record over a table. -/
structure Follows (first : Table τ) (capacity : Nat) (indices : List UInt32) (w : Writer) : Prop where
  course : w.tried ++ w.ahead = indices
  inside : ∀ index ∈ w.tried, index.toNat < capacity
  stopped : ∀ fault, w.stop = some fault →
    (w.stage = .ready ∧ ∃ index rest, w.ahead = index :: rest ∧ capacity ≤ index.toNat ∧
      fault = .regionOutOfRange index.toNat capacity) ∨
    ∃ index, w.stage = .noting index ∧ (first.note index).1 = .error fault

theorem follows_start (first : Table τ) (capacity : Nat) (indices : List UInt32) :
    (start indices).Follows first capacity indices where
  course := rfl
  inside := by
    intro index member
    cases member
  stopped := by
    intro fault stopped
    cases stopped

namespace Follows

variable {capacity : Nat} {indices : List UInt32} {w : Writer}

/-- A thread at its end is between two recordings, or has found no region to tell. -/
theorem stage_of_finished (h : w.Follows first capacity indices) (finished : w.finished = true) :
    w.stage = .ready ∨ ∃ index fault, w.stage = .noting index ∧ w.stop = some fault ∧
      (first.note index).1 = .error fault := by
  cases stopped : w.stop with
  | some fault =>
      obtain ⟨ready, _⟩ | ⟨index, noting, lost⟩ := h.stopped fault stopped
      · exact Or.inl ready
      · exact Or.inr ⟨index, fault, noting, rfl, lost⟩
  | none =>
      simp only [Writer.finished, stopped, Option.isSome_none, Bool.false_or, Bool.and_eq_true,
        beq_iff_eq] at finished
      exact Or.inl finished.1

section Resolves

variable (resolves : ∀ index : UInt32, index.toNat < capacity → first.Resolves index)
include resolves

/-- A thread that finds every region is stopped by an index out of range only. -/
theorem beyond_of_stopped (h : w.Follows first capacity indices) {fault : Fault}
    (stopped : w.stop = some fault) :
    w.stage = .ready ∧ ∃ index rest, w.ahead = index :: rest ∧ capacity ≤ index.toNat ∧
      fault = .regionOutOfRange index.toNat capacity := by
  obtain beyond | ⟨index, noting, lost⟩ := h.stopped fault stopped
  · exact beyond
  · have tried : index ∈ w.tried := by
      rw [Writer.tried, noting]
      exact List.mem_append_right _ (List.mem_singleton_self index)
    rw [Table.note_of_resolves (resolves index (h.inside index tried))] at lost
    cases lost

theorem ready_of_finished (h : w.Follows first capacity indices) (finished : w.finished = true) :
    w.stage = .ready := by
  obtain ready | ⟨_, fault, _, stopped, _⟩ := h.stage_of_finished finished
  · exact ready
  · exact (h.beyond_of_stopped resolves stopped).1

/-- A thread at its end has tried all indices before the first that is out of range. -/
theorem tried_of_finished (h : w.Follows first capacity indices) (finished : w.finished = true) :
    w.tried = courseWithin capacity indices := by
  rw [← h.course]
  cases stopped : w.stop with
  | some fault =>
      obtain ⟨_, index, rest, ahead, beyond, _⟩ := h.beyond_of_stopped resolves stopped
      rw [ahead, courseWithin_of_beyond h.inside beyond]
  | none =>
      simp only [Writer.finished, stopped, Option.isSome_none, Bool.false_or, Bool.and_eq_true,
        List.isEmpty_iff] at finished
      rw [finished.2, List.append_nil, courseWithin_of_inside h.inside]

/-- A thread at its end has stopped at the first index that is out of range, if there is one. -/
theorem stop_of_finished (h : w.Follows first capacity indices) (finished : w.finished = true) :
    w.stop = faultBeyond capacity indices := by
  rw [← h.course]
  cases stopped : w.stop with
  | some fault =>
      obtain ⟨_, index, rest, ahead, beyond, rfl⟩ := h.beyond_of_stopped resolves stopped
      rw [ahead, faultBeyond_of_beyond h.inside beyond]
  | none =>
      simp only [Writer.finished, stopped, Option.isSome_none, Bool.false_or, Bool.and_eq_true,
        List.isEmpty_iff] at finished
      rw [finished.2, List.append_nil, faultBeyond_of_inside h.inside]

end Resolves

variable {w' : Writer} {r r' : Recorder} {table table' : Table τ}

theorem move (h : w.Follows first r.failed.capacity indices) (wellFormed : r.failed.WellFormed)
    (same : ∀ index, (table.note index).1 = (first.note index).1)
    (moved : Move (w, r, table) (w', r', table')) : w'.Follows first r.failed.capacity indices where
  course := by
    obtain ⟨tried, ahead⟩ | ⟨index, tried, ahead, _, _⟩ := moved.tried_cases wellFormed
    · rw [tried, ahead]
      exact h.course
    · rw [tried, List.append_assoc, ← h.course, ahead]
      rfl
  inside := by
    obtain ⟨tried, _⟩ | ⟨index, tried, _, inside, _⟩ := moved.tried_cases wellFormed
    · rw [tried]
      exact h.inside
    · rw [tried]
      intro j member
      rcases List.mem_append.mp member with early | last
      · exact h.inside j early
      · rw [List.mem_singleton.mp last]
        exact inside
  stopped := by
    intro fault stopped
    cases moved with
    | rest finished => exact h.stopped fault stopped
    | refuse running stage ahead beyond =>
        exact Or.inl ⟨stage, _, _, ahead, beyond, (Option.some.inj stopped).symm⟩
    | lose running stage ahead taken => exact absurd (running.symm.trans stopped) nofun
    | win running stage ahead inside free => exact absurd (running.symm.trans stopped) nofun
    | reserve running stage => exact absurd (running.symm.trans stopped) nofun
    | store running stage inside => exact absurd (running.symm.trans stopped) nofun
    | note running stage told => exact absurd (running.symm.trans stopped) nofun
    | @strand _ _ _ index _ running stage lost =>
        rw [← Option.some.inj stopped]
        exact Or.inr ⟨index, stage, (same index).symm.trans lost⟩

end Follows

end Writer

end Evacuation.Race
