import Evacuation.Table.Request

/-!
# What telling regions does to a table

Telling the regions behind a list of indices changes the notes of the heap and nothing else: the
layout stays, every index that resolved still resolves, and the region at a position has as many more
notes as the list has indices laid over that position, in whatever order they come.
-/

namespace Evacuation

namespace Region

def noted (r : Region) (times : Nat) : Region :=
  { r with failed := r.failed || decide (0 < times), notes := r.notes + UInt64.ofNat times }

theorem noted_zero (r : Region) : r.noted 0 = r := by
  simp [noted]

theorem noted_note (r : Region) (times : Nat) : r.note.noted times = r.noted (times + 1) := by
  simp [noted, note, UInt64.add_assoc, UInt64.add_comm 1]

theorem noted_noted (r : Region) (first more : Nat) :
    (r.noted first).noted more = r.noted (first + more) := by
  unfold noted
  congr 1
  · rcases Nat.eq_zero_or_pos first with rfl | positive
    · simp
    · simp [positive, Nat.add_pos_left positive more]
  · rw [UInt64.add_assoc, ← UInt64.ofNat_add]

theorem failed_noted_fresh (index : UInt32) (times : Nat) :
    ((fresh index).noted times).failed = true ↔ times ≠ 0 := by
  simp [noted, fresh, Nat.pos_iff_ne_zero]

theorem notes_noted_fresh (index : UInt32) {times : Nat} (few : times < UInt64.size) :
    ((fresh index).noted times).notes.toNat = times := by
  simp [noted, fresh, UInt64.toNat_ofNat_of_lt' few]

end Region

/-! ## What a heap tells -/

namespace Heap

/-- The heap of `size` regions each of which was told so often since it was last cleared. -/
def told (size : UInt32) (notes : Nat → Nat) : Heap :=
  ⟨Array.ofFn fun position : Fin size.toNat =>
    (Region.fresh (UInt32.ofNat position)).noted (notes position)⟩

theorem ext_getElem? {g h : Heap} (same : ∀ position : Nat, g.regions[position]? = h.regions[position]?) :
    g = h := by
  cases g
  cases h
  exact congrArg Heap.mk (Array.ext_getElem? same)

theorem ofSize_eq_told (size : UInt32) : ofSize size = told size fun _ => 0 := by
  simp [ofSize, told, Region.noted_zero]

theorem getElem?_told (size : UInt32) (notes : Nat → Nat) (position : Nat) :
    (told size notes).regions[position]? =
      if position < size.toNat then
        some ((Region.fresh (UInt32.ofNat position)).noted (notes position))
      else none := by
  rw [told, Array.getElem?_ofFn]
  split <;> rfl

/-- A heap of `size` regions keeps their indices, and counts and flags right how often each region
was told since it was last cleared. -/
structure Tallies (size : UInt32) (notes : Nat → Nat) (h : Heap) : Prop where
  size_eq : h.size = size.toNat
  index_eq : ∀ (position : Nat) (region : Region), h.regions[position]? = some region →
    region.index.toNat = position
  notes_eq : ∀ (position : Nat) (region : Region), h.regions[position]? = some region →
    region.notes.toNat = notes position
  failed_iff : ∀ (position : Nat) (region : Region), h.regions[position]? = some region →
    (region.failed = true ↔ region.notes ≠ 0)
  ascending : h.failedRegions.Pairwise (· < ·)
  mem_failedRegions : ∀ index : UInt32,
    index ∈ h.failedRegions ↔ index.toNat < size.toNat ∧ notes index.toNat ≠ 0

theorem pairwise_positions (size : UInt32) :
    ((List.range size.toNat).map UInt32.ofNat).Pairwise (· < ·) := by
  refine List.pairwise_map.mpr (List.pairwise_lt_range.imp_of_mem ?_)
  intro i j _ member less
  have narrow := Nat.lt_trans (List.mem_range.mp member) size.toNat_lt
  rw [UInt32.lt_iff_toNat_lt, UInt32.toNat_ofNat_of_lt' narrow,
    UInt32.toNat_ofNat_of_lt' (Nat.lt_trans less narrow)]
  exact less

theorem indices_told (size : UInt32) (notes : Nat → Nat) :
    (told size notes).regions.toList.map Region.index =
      (List.range size.toNat).map UInt32.ofNat := by
  apply List.ext_getElem?
  intro position
  rw [List.getElem?_map, List.getElem?_map, Array.getElem?_toList, getElem?_told]
  by_cases inside : position < size.toNat
  · rw [if_pos inside, List.getElem?_range inside]
    rfl
  · rw [if_neg inside, List.getElem?_eq_none (by simpa using inside)]
    rfl

theorem getElem?_told_eq_some {size : UInt32} {notes : Nat → Nat} {position : Nat} {region : Region} :
    (told size notes).regions[position]? = some region ↔
      position < size.toNat ∧
        (Region.fresh (UInt32.ofNat position)).noted (notes position) = region := by
  rw [getElem?_told]
  split
  · next inside => simp [inside]
  · next beyond => simp [beyond]

theorem mem_failedRegions_told {size : UInt32} {notes : Nat → Nat} {index : UInt32} :
    index ∈ (told size notes).failedRegions ↔ index.toNat < size.toNat ∧ notes index.toNat ≠ 0 := by
  rw [failedRegions, List.mem_map]
  constructor
  · rintro ⟨region, member, rfl⟩
    obtain ⟨member, failed⟩ := List.mem_filter.mp member
    obtain ⟨position, here⟩ := List.mem_iff_getElem?.mp member
    rw [Array.getElem?_toList, getElem?_told_eq_some] at here
    obtain ⟨inside, rfl⟩ := here
    have same : (UInt32.ofNat position).toNat = position :=
      UInt32.toNat_ofNat_of_lt' (Nat.lt_trans inside size.toNat_lt)
    change (UInt32.ofNat position).toNat < _ ∧ notes (UInt32.ofNat position).toNat ≠ 0
    rw [same]
    exact ⟨inside, (Region.failed_noted_fresh _ _).mp failed⟩
  · rintro ⟨inside, noted⟩
    refine ⟨(Region.fresh index).noted (notes index.toNat), List.mem_filter.mpr ⟨?_, ?_⟩, rfl⟩
    · refine List.mem_iff_getElem?.mpr ⟨index.toNat, ?_⟩
      rw [Array.getElem?_toList, getElem?_told_eq_some, UInt32.ofNat_toNat]
      exact ⟨inside, rfl⟩
    · exact (Region.failed_noted_fresh _ _).mpr noted

theorem tallies_told {size : UInt32} {notes : Nat → Nat}
    (few : ∀ position < size.toNat, notes position < UInt64.size) :
    (told size notes).Tallies size notes where
  size_eq := Array.size_ofFn
  index_eq := by
    intro position region here
    obtain ⟨inside, rfl⟩ := getElem?_told_eq_some.mp here
    exact UInt32.toNat_ofNat_of_lt' (Nat.lt_trans inside size.toNat_lt)
  notes_eq := by
    intro position region here
    obtain ⟨inside, rfl⟩ := getElem?_told_eq_some.mp here
    exact Region.notes_noted_fresh _ (few position inside)
  failed_iff := by
    intro position region here
    obtain ⟨inside, rfl⟩ := getElem?_told_eq_some.mp here
    rw [Region.failed_noted_fresh, ne_eq, ne_eq, ← UInt64.toNat_inj,
      Region.notes_noted_fresh _ (few position inside)]
    rfl
  ascending := by
    have sorted : ((told size notes).regions.toList.map Region.index).Pairwise (· < ·) := by
      rw [indices_told]
      exact pairwise_positions size
    exact sorted.sublist (List.filter_sublist.map Region.index)
  mem_failedRegions := fun _ => mem_failedRegions_told

end Heap

namespace Table

variable {τ : Type} [Layout τ]

def places (t : Table τ) (position : Nat) (index : UInt32) : Bool :=
  match Layout.place t.layout index with
  | .ok place => place.toNat == position
  | .error _ => false

/-- The table after the regions behind some indices have been told, one after another. -/
def tell (t : Table τ) (indices : List UInt32) : Table τ :=
  indices.foldl (fun t index => (t.note index).2) t

theorem tell_append_singleton (t : Table τ) (indices : List UInt32) (index : UInt32) :
    t.tell (indices ++ [index]) = ((t.tell indices).note index).2 := by
  simp [tell]

/-! ## One note -/

theorem update_of_place {t : Table τ} {index place : UInt32}
    (placed : Layout.place t.layout index = .ok place) (change : Region → Region) :
    t.update index change =
      ((t.heap.update place change).1, { t with heap := (t.heap.update place change).2 }) := by
  simp [update, placed]

theorem update_of_error {t : Table τ} {index : UInt32} {fault : Fault}
    (lost : Layout.place t.layout index = .error fault) (change : Region → Region) :
    t.update index change = (.error fault, t) := by
  simp [update, lost]

theorem layout_note (t : Table τ) (index : UInt32) : (t.note index).2.layout = t.layout := by
  unfold note
  cases placed : Layout.place t.layout index with
  | error fault => rw [update_of_error placed]
  | ok place => rw [update_of_place placed]

theorem size_note (t : Table τ) (index : UInt32) : (t.note index).2.heap.size = t.heap.size := by
  unfold note
  cases placed : Layout.place t.layout index with
  | error fault => rw [update_of_error placed]
  | ok place =>
      rw [update_of_place placed]
      exact t.heap.size_update place Region.note

/-- What a note comes to depends on the layout and on the size of the heap alone. -/
theorem note_fst (t : Table τ) (index : UInt32) : (t.note index).1 =
    (Layout.place t.layout index).bind fun place =>
      if place.toNat < t.heap.size then .ok ()
      else .error (.indexOutOfBounds t.heap.size place.toNat) := by
  unfold note
  cases placed : Layout.place t.layout index with
  | error fault =>
      rw [update_of_error placed]
      rfl
  | ok place =>
      rw [update_of_place placed, Heap.update]
      by_cases inside : place.toNat < t.heap.regions.size <;>
        simp [inside, Heap.size, Except.bind]

theorem note_fst_note (t : Table τ) (told index : UInt32) :
    ((t.note told).2.note index).1 = (t.note index).1 := by
  rw [note_fst, note_fst, layout_note, size_note]

/-- An index resolves exactly if it is laid over a position of the heap. -/
theorem resolves_iff {t : Table τ} {index : UInt32} :
    t.Resolves index ↔ ∃ place, Layout.place t.layout index = .ok place ∧ place.toNat < t.heap.size := by
  unfold Resolves region Heap.region Heap.size
  cases placed : Layout.place t.layout index with
  | error fault => simp [bind, Except.bind]
  | ok place =>
      simp only [bind, Except.bind, Except.ok.injEq, exists_eq_left']
      by_cases inside : place.toNat < t.heap.regions.size
      · simp [inside]
      · simp [inside]

theorem resolves_ofSize {size index : UInt32} (inside : index.toNat < size.toNat) :
    (ofSize size).Resolves index := by
  refine resolves_iff.mpr ⟨index, rfl, ?_⟩
  rw [ofSize, Heap.size_ofSize]
  exact inside

theorem resolves_note {t : Table τ} {index : UInt32} (h : t.Resolves index) (told : UInt32) :
    (t.note told).2.Resolves index := by
  obtain ⟨place, placed, inside⟩ := resolves_iff.mp h
  exact resolves_iff.mpr ⟨place, (layout_note t told).symm ▸ placed, (size_note t told).symm ▸ inside⟩

theorem note_of_resolves {t : Table τ} {index : UInt32} (h : t.Resolves index) :
    (t.note index).1 = .ok () := by
  obtain ⟨place, placed, inside⟩ := resolves_iff.mp h
  have bound : place.toNat < t.heap.regions.size := inside
  simp [note, update_of_place placed, Heap.update, bound]

theorem note_eq_ok_iff {t : Table τ} {index : UInt32} :
    (t.note index).1 = .ok () ↔ t.Resolves index := by
  refine ⟨?_, note_of_resolves⟩
  intro told
  unfold note at told
  cases placed : Layout.place t.layout index with
  | error fault =>
      rw [update_of_error placed] at told
      cases told
  | ok place =>
      rw [update_of_place placed, Heap.update] at told
      refine resolves_iff.mpr ⟨place, placed, ?_⟩
      by_cases inside : place.toNat < t.heap.regions.size
      · exact inside
      · simp [inside] at told

/-- A note faults as asking for the region does. -/
theorem note_eq_error_iff {t : Table τ} {index : UInt32} {fault : Fault} :
    (t.note index).1 = .error fault ↔ t.region index = .error fault := by
  unfold note region
  cases placed : Layout.place t.layout index with
  | error lost =>
      rw [update_of_error placed]
      simp [bind, Except.bind]
  | ok place =>
      rw [update_of_place placed, Heap.update]
      by_cases inside : place.toNat < t.heap.regions.size
      · simp [inside, Heap.region, bind, Except.bind]
      · simp [inside, Heap.region, bind, Except.bind]

/-- A note that finds no region changes nothing. -/
theorem note_of_not_resolves {t : Table τ} {index : UInt32} (h : ¬t.Resolves index) :
    (t.note index).2 = t := by
  unfold note
  cases placed : Layout.place t.layout index with
  | error fault => rw [update_of_error placed]
  | ok place =>
      have beyond : ¬place.toNat < t.heap.regions.size := fun inside =>
        h (resolves_iff.mpr ⟨place, placed, inside⟩)
      simp [update_of_place placed, Heap.update, beyond]

theorem note_of_error {t : Table τ} {index : UInt32} {fault : Fault}
    (lost : (t.note index).1 = .error fault) : (t.note index).2 = t := by
  refine note_of_not_resolves fun resolves => ?_
  rw [note_of_resolves resolves] at lost
  cases lost

/-- Only the region that an index is laid over is changed. -/
theorem getElem?_update (t : Table τ) (index : UInt32) (change : Region → Region) (position : Nat) :
    (t.update index change).2.heap.regions[position]? =
      (t.heap.regions[position]?).map fun region =>
        if t.places position index then change region else region := by
  unfold places
  cases placed : Layout.place t.layout index with
  | error fault => simp [update_of_error placed]
  | ok place =>
      rw [update_of_place placed]
      by_cases inside : place.toNat < t.heap.regions.size
      · by_cases same : place.toNat = position
        · subst same
          simp [Heap.update, inside, Array.getElem_modify]
        · simp [Heap.update, inside, Array.getElem?_modify, same]
      · by_cases same : place.toNat = position
        · have past : t.heap.regions[position]? = none := by
            rw [Array.getElem?_eq_none_iff]
            omega
          simp [Heap.update, inside, past]
        · simp [Heap.update, inside, same]

/-! ## Many notes -/

theorem layout_tell (t : Table τ) (indices : List UInt32) : (t.tell indices).layout = t.layout := by
  induction indices generalizing t with
  | nil => rfl
  | cons index rest ih => exact (ih (t.note index).2).trans (t.layout_note index)

theorem note_fst_tell (t : Table τ) (told : List UInt32) (index : UInt32) :
    ((t.tell told).note index).1 = (t.note index).1 := by
  induction told generalizing t with
  | nil => rfl
  | cons first rest ih => exact (ih (t.note first).2).trans (t.note_fst_note first index)

/-- The region at a position is told once for every index that is laid over it. -/
theorem getElem?_tell (t : Table τ) (indices : List UInt32) (position : Nat) :
    (t.tell indices).heap.regions[position]? =
      (t.heap.regions[position]?).map (Region.noted · (indices.countP (t.places position))) := by
  induction indices generalizing t with
  | nil => simp [tell, Region.noted_zero]
  | cons index rest ih =>
      have same : (t.note index).2.places position = t.places position := by
        unfold places
        rw [layout_note]
      have first : t.tell (index :: rest) = (t.note index).2.tell rest := rfl
      rw [first, ih, same, note, getElem?_update, Option.map_map, List.countP_cons]
      congr 1
      funext region
      by_cases placed : t.places position index = true
      · simp [placed, Region.noted_note]
      · simp [placed]

end Table

end Evacuation
