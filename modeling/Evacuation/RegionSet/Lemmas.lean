import Evacuation.RegionSet.Request

/-!
# Region sets through their bits

Each operation on a region set is described by what it does to `RegionSet.bit`.  Below the capacity of
a well-formed set, `claim` answers whether the bit was clear and sets that bit and no other, and
`contains` reads it; at and beyond the capacity both fault.  Every operation keeps well-formedness.
-/

namespace Evacuation

namespace RegionSet

def insert (s : RegionSet) (i : Nat) : RegionSet :=
  { s with
    words := s.words.setIfInBounds (i / 64) (s.words.getD (i / 64) 0#64 ||| Word.single (i % 64)) }

theorem lt_wordsFor {i capacity : Nat} (h : i < capacity) : i / 64 < wordsFor capacity := by
  unfold wordsFor
  omega

theorem WellFormed.load {s : RegionSet} (h : s.WellFormed) {i : Nat} (hi : i < s.capacity) :
    s.load (i / 64) = .ok (s.words.getD (i / 64) 0#64) := by
  have bound : i / 64 < s.words.size := h.size_words ▸ lt_wordsFor hi
  simp [RegionSet.load, bound]

/-! ## Claiming and reading -/

/-- A claim below the capacity answers whether the bit was clear, and sets it. -/
theorem WellFormed.claim {s : RegionSet} (h : s.WellFormed) {i : Nat} (hi : i < s.capacity) :
    s.claim i = (.ok (!s.bit i), s.insert i) := by
  have narrow : i % 64 < 64 := Nat.mod_lt i (by decide)
  simp [RegionSet.claim, locate, hi, fetchOr, h.load hi, Except.map,
    Word.and_single_eq_zero _ narrow, bit, insert]

/-- A claim at or beyond the capacity faults and changes nothing. -/
theorem claim_of_le {s : RegionSet} {i : Nat} (hi : s.capacity ≤ i) :
    s.claim i = (.error (.regionOutOfRange i s.capacity), s) := by
  simp [claim, locate, Nat.not_lt.mpr hi]

/-- Below the capacity a reader is told the bit. -/
theorem WellFormed.contains {s : RegionSet} (h : s.WellFormed) {i : Nat} (hi : i < s.capacity) :
    s.contains i = .ok (s.bit i) := by
  have narrow : i % 64 < 64 := Nat.mod_lt i (by decide)
  have masked := Word.and_single_eq_zero (s.words.getD (i / 64) 0#64) narrow
  simp only [RegionSet.contains, locate, hi, ↓reduceIte, h.load hi, bind, Except.bind, pure,
    Except.pure, bit, bne, masked, Bool.not_not]

/-- At and beyond the capacity a reader is refused. -/
theorem contains_of_le {s : RegionSet} {i : Nat} (hi : s.capacity ≤ i) :
    s.contains i = .error (.regionOutOfRange i s.capacity) := by
  simp [contains, locate, Nat.not_lt.mpr hi, bind, Except.bind]

/-! ## Bits -/

theorem bit_empty (capacity i : Nat) : (empty capacity).bit i = false := by
  unfold bit empty
  by_cases inside : i / 64 < wordsFor capacity <;> simp [inside]

theorem bit_insert {s : RegionSet} (h : s.WellFormed) {i : Nat} (hi : i < s.capacity) (j : Nat) :
    (s.insert i).bit j = (s.bit j || decide (i = j)) := by
  have bound : i / 64 < s.words.size := h.size_words ▸ lt_wordsFor hi
  have narrow : i % 64 < 64 := Nat.mod_lt i (by decide)
  by_cases word : i / 64 = j / 64
  · have same : i % 64 = j % 64 ↔ i = j := by omega
    simp [bit, insert, ← word, bound, Word.getLsbD_single narrow, same]
  · have other : i ≠ j := fun same => word (congrArg (· / 64) same)
    simp [bit, insert, word, other]

theorem bit_clear (s : RegionSet) (i : Nat) : s.clear.bit i = false := by
  unfold bit clear
  by_cases inside : i / 64 < s.words.size <;> simp [inside]

theorem bit_resize (s : RegionSet) (capacity i : Nat) : (s.resize capacity).bit i = false := by
  unfold resize
  split
  · exact s.bit_clear i
  · exact bit_empty capacity i

theorem capacity_resize (s : RegionSet) (capacity : Nat) :
    (s.resize capacity).capacity = capacity := by
  unfold resize
  split <;> rfl

/-! ## Well-formedness -/

theorem wellFormed_empty (capacity : Nat) : (empty capacity).WellFormed where
  size_words := by simp [empty]
  spare_clear := fun i _ => bit_empty capacity i

theorem WellFormed.insert {s : RegionSet} (h : s.WellFormed) {i : Nat} (hi : i < s.capacity) :
    (s.insert i).WellFormed where
  size_words := by simpa [RegionSet.insert] using h.size_words
  spare_clear := by
    intro j hj
    have beyond : s.capacity ≤ j := hj
    have other : i ≠ j := by omega
    simp [bit_insert h hi, h.spare_clear j beyond, other]

theorem WellFormed.clear {s : RegionSet} (h : s.WellFormed) : s.clear.WellFormed where
  size_words := by simpa [RegionSet.clear] using h.size_words
  spare_clear := fun i _ => s.bit_clear i

theorem wellFormed_resize (s : RegionSet) (capacity : Nat) : (s.resize capacity).WellFormed where
  size_words := by
    unfold resize
    split
    · next fits => simp [clear, fits]
    · simp [empty]
  spare_clear := fun i _ => s.bit_resize capacity i

end RegionSet

end Evacuation
