import Mathlib.Data.List.Nodup
import Evacuation.RegionSet.Lemmas

/-!
# Enumerations of a region set

A list enumerates a region set when it has every claimed index once and nothing else.  Claiming a
free index puts one entry in front, and clearing empties the list.  Any two enumerations of a set are
permutations of each other, so its population count is the length of each of them.
-/

namespace Evacuation

namespace RegionSet

/-! ## Counting bits -/

/-- The weights of a run of words add up to the number of bits set in it. -/
theorem foldl_weight (words : List Word) (total : Nat) :
    words.foldl (fun sum word => sum + word.weight) total =
      total + (List.range (64 * words.length)).countP
        fun i => (words.getD (i / 64) 0#64).getLsbD (i % 64) := by
  induction words generalizing total with
  | nil => simp
  | cons word rest ih =>
      have size : 64 * (word :: rest).length = 64 + 64 * rest.length := by
        simp only [List.length_cons]
        omega
      have first : (List.range 64).countP
          (fun i => ((word :: rest).getD (i / 64) 0#64).getLsbD (i % 64)) = word.weight := by
        rw [Word.weight_eq]
        apply List.countP_congr
        intro i member
        have narrow : i < 64 := List.mem_range.mp member
        simp [Nat.div_eq_of_lt narrow, Nat.mod_eq_of_lt narrow]
      have others : (fun i => ((word :: rest).getD (i / 64) 0#64).getLsbD (i % 64)) ∘ (64 + ·) =
          fun i => (rest.getD (i / 64) 0#64).getLsbD (i % 64) := by
        funext i
        simp [Nat.add_div_left]
      rw [List.foldl_cons, ih, size, List.range_add, List.countP_append, List.countP_map, first,
        others, Nat.add_assoc]

/-- The population count is the number of claimed indices below the capacity. -/
theorem WellFormed.count {s : RegionSet} (h : s.WellFormed) : s.count = s.members.length := by
  have words : s.count = (List.range (64 * s.words.size)).countP s.bit := by
    rw [RegionSet.count, ← Array.foldl_toList, foldl_weight, Array.length_toList, Nat.zero_add]
    apply List.countP_congr
    intro i _
    simp [bit]
  have room : s.capacity ≤ 64 * s.words.size := by
    rw [h.size_words, wordsFor]
    omega
  have spare : ((List.range (64 * s.words.size - s.capacity)).map (s.capacity + ·)).countP s.bit = 0 := by
    rw [List.countP_eq_zero]
    intro i member
    obtain ⟨k, _, rfl⟩ := List.mem_map.mp member
    simp [h.spare_clear (s.capacity + k) (Nat.le_add_right _ _)]
  rw [words, ← Nat.add_sub_cancel' room, List.range_add, List.countP_append, spare, Nat.add_zero,
    members, List.countP_eq_length_filter]

theorem mem_members {s : RegionSet} {i : Nat} : i ∈ s.members ↔ i < s.capacity ∧ s.bit i = true := by
  simp [members]

theorem nodup_members (s : RegionSet) : s.members.Nodup :=
  List.nodup_range.filter _

theorem WellFormed.lt_capacity {s : RegionSet} (h : s.WellFormed) {i : Nat} (set : s.bit i = true) :
    i < s.capacity := by
  by_contra beyond
  rw [h.spare_clear i (Nat.le_of_not_lt beyond)] at set
  cases set

/-- Claiming an index again changes no word. -/
theorem WellFormed.insert_claimed {s : RegionSet} (h : s.WellFormed) {i : Nat} (set : s.bit i = true) :
    s.insert i = s := by
  have inside : i / 64 < s.words.size := h.size_words ▸ lt_wordsFor (h.lt_capacity set)
  have narrow : i % 64 < 64 := Nat.mod_lt i (by decide)
  have joined : s.words.getD (i / 64) 0#64 ||| Word.single (i % 64) =
      s.words.getD (i / 64) 0#64 := by
    apply BitVec.eq_of_getLsbD_eq
    intro j _
    rw [Word.getLsbD_or_single narrow]
    by_cases same : i % 64 = j
    · have found : (s.words.getD (i / 64) 0#64).getLsbD j = true := same ▸ set
      rw [found, Bool.true_or]
    · rw [decide_eq_false same, Bool.or_false]
  have kept : s.words.setIfInBounds (i / 64) (s.words.getD (i / 64) 0#64) = s.words := by
    apply Array.ext (by simp)
    intro k _ _
    rw [Array.getElem_setIfInBounds]
    split
    · next same =>
      subst same
      simp
    · rfl
  rw [RegionSet.insert, joined, kept]

/-! ## Enumerations -/

/-- A list that has every claimed index of a set once, and nothing else. -/
structure Enumerates (listing : List UInt32) (s : RegionSet) : Prop where
  nodup : listing.Nodup
  mem_iff : ∀ index : UInt32, index ∈ listing ↔ s.bit index.toNat = true

namespace Enumerates

variable {listing other : List UInt32} {s : RegionSet}

theorem of_perm (h : Enumerates listing s) (same : listing.Perm other) : Enumerates other s where
  nodup := same.nodup_iff.mp h.nodup
  mem_iff := fun index => same.mem_iff.symm.trans (h.mem_iff index)

theorem of_clear (free : ∀ i, s.bit i = false) : Enumerates [] s where
  nodup := List.nodup_nil
  mem_iff := fun index => by simp [free index.toNat]

theorem lt_capacity (h : Enumerates listing s) (wellFormed : s.WellFormed) {index : UInt32}
    (member : index ∈ listing) : index.toNat < s.capacity :=
  wellFormed.lt_capacity ((h.mem_iff index).mp member)

/-- Claiming a free index adds it to the enumeration. -/
theorem insert (h : Enumerates listing s) (wellFormed : s.WellFormed) {index : UInt32}
    (inside : index.toNat < s.capacity) (free : s.bit index.toNat = false) :
    Enumerates (index :: listing) (s.insert index.toNat) where
  nodup := by
    refine List.nodup_cons.mpr ⟨?_, h.nodup⟩
    intro member
    rw [(h.mem_iff index).mp member] at free
    cases free
  mem_iff := by
    intro j
    rw [List.mem_cons, bit_insert wellFormed inside, Bool.or_eq_true, decide_eq_true_eq,
      ← h.mem_iff j, UInt32.toNat_inj, or_comm, eq_comm]

theorem bit_iff (h : Enumerates listing s) (wellFormed : s.WellFormed)
    (narrow : s.capacity ≤ UInt32.size) (i : Nat) :
    s.bit i = true ↔ ∃ index ∈ listing, index.toNat = i := by
  constructor
  · intro set
    have back : (UInt32.ofNat i).toNat = i :=
      UInt32.toNat_ofNat_of_lt' (Nat.lt_of_lt_of_le (wellFormed.lt_capacity set) narrow)
    exact ⟨UInt32.ofNat i, (h.mem_iff _).mpr (back.symm ▸ set), back⟩
  · rintro ⟨index, member, rfl⟩
    exact (h.mem_iff index).mp member

/-- An enumeration is the members of the set in some order. -/
theorem perm_members (h : Enumerates listing s) (wellFormed : s.WellFormed)
    (narrow : s.capacity ≤ UInt32.size) : (listing.map UInt32.toNat).Perm s.members := by
  have distinct : (listing.map UInt32.toNat).Nodup :=
    h.nodup.map fun _ _ same => UInt32.toNat_inj.mp same
  rw [List.perm_ext_iff_of_nodup distinct s.nodup_members]
  intro i
  rw [mem_members, List.mem_map, ← h.bit_iff wellFormed narrow]
  constructor
  · intro set
    exact ⟨wellFormed.lt_capacity set, set⟩
  · rintro ⟨_, set⟩
    exact set

theorem count_eq_length (h : Enumerates listing s) (wellFormed : s.WellFormed)
    (narrow : s.capacity ≤ UInt32.size) : s.count = listing.length := by
  rw [wellFormed.count, ← (h.perm_members wellFormed narrow).length_eq, List.length_map]

theorem length_le (h : Enumerates listing s) (wellFormed : s.WellFormed)
    (narrow : s.capacity ≤ UInt32.size) : listing.length ≤ s.capacity := by
  rw [← List.length_map UInt32.toNat, (h.perm_members wellFormed narrow).length_eq, members]
  exact Nat.le_trans (List.length_filter_le _ _) (Nat.le_of_eq List.length_range)

end Enumerates

end RegionSet

end Evacuation
