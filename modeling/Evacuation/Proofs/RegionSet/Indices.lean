import Mathlib.Data.Finset.Card
import Mathlib.Data.Finset.Sort
import Evacuation.Proofs.RegionSet.Enumeration
import Evacuation.Proofs.Transcript
import Evacuation.RegionSet.Request

/-!
# Region sets as sets of indices

What a region set is asked for can be answered from the finite set of the indices that are claimed and
the capacity they lie below, with no word and no mask in sight.  `Represents` ties the bits to such a
set; one request keeps the tie and is answered as the set says, and so does every sequence of them,
those that fault included.
-/

namespace Evacuation

structure IndexSet where
  indices : Finset Nat
  capacity : Nat
  below : ∀ i ∈ indices, i < capacity

namespace IndexSet

def empty (capacity : Nat) : IndexSet :=
  ⟨∅, capacity, by simp⟩

def claim (set : IndexSet) (i : Nat) : IndexSet :=
  if inside : i < set.capacity then
    ⟨insert i set.indices, set.capacity, by
      intro j member
      rcases Finset.mem_insert.mp member with rfl | old
      · exact inside
      · exact set.below j old⟩
  else
    set

def after (set : IndexSet) : RegionSet.Request → IndexSet
  | .claim index => set.claim index
  | .clear => empty set.capacity
  | .resize capacity => empty capacity
  | .contains _ | .count | .capacity | .members | .inspect => set

def about (set : IndexSet) (i : Nat) (told : Bool) : Except Fault Answer :=
  if i < set.capacity then .ok (.flag told) else .error (.regionOutOfRange i set.capacity)

/-- The answer to a request; the text of a region set shows its words, of which the set knows nothing. -/
def answer? (set : IndexSet) : RegionSet.Request → Option (Except Fault Answer)
  | .claim index => some (set.about index (decide (index ∉ set.indices)))
  | .contains index => some (set.about index (decide (index ∈ set.indices)))
  | .count => some (.ok (.number set.indices.card))
  | .capacity => some (.ok (.number set.capacity))
  | .clear | .resize _ => some (.ok .nothing)
  | .members => some (.ok (.numbers (set.indices.sort (· ≤ ·))))
  | .inspect => none

theorem mem_claim {set : IndexSet} {i : Nat} (inside : i < set.capacity) (j : Nat) :
    j ∈ (set.claim i).indices ↔ j = i ∨ j ∈ set.indices := by
  rw [claim, dif_pos inside]
  exact Finset.mem_insert

theorem claim_of_le {set : IndexSet} {i : Nat} (beyond : set.capacity ≤ i) : set.claim i = set :=
  dif_neg (Nat.not_lt.mpr beyond)

theorem capacity_claim (set : IndexSet) (i : Nat) : (set.claim i).capacity = set.capacity := by
  unfold claim
  split <;> rfl

end IndexSet

namespace RegionSet

/-- A region set stands for a set of indices: their bits are set, and no other bit of any word is. -/
structure Represents (s : RegionSet) (set : IndexSet) : Prop where
  wellFormed : s.WellFormed
  capacity : s.capacity = set.capacity
  bit_iff : ∀ i, s.bit i = true ↔ i ∈ set.indices

namespace Represents

variable {s : RegionSet} {set : IndexSet}

theorem of_clear (wellFormed : s.WellFormed) (free : ∀ i, s.bit i = false) :
    s.Represents (.empty s.capacity) where
  wellFormed := wellFormed
  capacity := rfl
  bit_iff := fun i => by simp [free i, IndexSet.empty]

theorem bit_eq (h : s.Represents set) (i : Nat) : s.bit i = decide (i ∈ set.indices) := by
  rw [Bool.eq_iff_iff, decide_eq_true_eq]
  exact h.bit_iff i

theorem insert (h : s.Represents set) {i : Nat} (inside : i < s.capacity) :
    (s.insert i).Represents (set.claim i) where
  wellFormed := h.wellFormed.insert inside
  capacity := by
    rw [set.capacity_claim]
    exact h.capacity
  bit_iff := by
    intro j
    rw [IndexSet.mem_claim (h.capacity ▸ inside), bit_insert h.wellFormed inside, Bool.or_eq_true,
      decide_eq_true_eq, h.bit_iff j, or_comm, eq_comm]

theorem mem_members_iff (h : s.Represents set) (i : Nat) : i ∈ s.members ↔ i ∈ set.indices := by
  rw [mem_members, h.bit_iff i]
  constructor
  · rintro ⟨_, member⟩
    exact member
  · intro member
    exact ⟨h.capacity ▸ set.below i member, member⟩

/-- The members are listed in ascending order. -/
theorem members_eq_sort (h : s.Represents set) : s.members = set.indices.sort (· ≤ ·) := by
  have ascending : s.members.Pairwise (· ≤ ·) :=
    (List.pairwise_le_range (n := s.capacity)).filter _
  have same : s.members.toFinset = set.indices := by
    ext i
    rw [List.mem_toFinset, h.mem_members_iff]
  rw [← same]
  exact ((List.toFinset_sort (· ≤ ·) s.nodup_members).mpr ascending).symm

/-- The bits of all the words together are as many as there are indices. -/
theorem count_eq_card (h : s.Represents set) : s.count = set.indices.card := by
  rw [h.wellFormed.count, h.members_eq_sort, Finset.length_sort]

/-- Each word holds the bits of its 64 indices. -/
theorem getLsbD_iff (h : s.Represents set) {k : Nat} (inside : k < s.words.size) {j : Nat}
    (narrow : j < 64) : s.words[k].getLsbD j = true ↔ 64 * k + j ∈ set.indices := by
  have word : (64 * k + j) / 64 = k := by omega
  have place : (64 * k + j) % 64 = j := by omega
  rw [← h.bit_iff, bit, word, place, Array.getD_eq_getD_getElem?, Array.getElem?_eq_getElem inside,
    Option.getD_some]

/-! ## One request -/

theorem claim_fst (h : s.Represents set) (i : Nat) :
    (s.claim i).1.map Answer.flag = set.about i (decide (i ∉ set.indices)) := by
  unfold IndexSet.about
  split
  · next inside =>
    rw [h.wellFormed.claim (h.capacity ▸ inside), h.bit_eq i, decide_not]
    rfl
  · next beyond =>
    rw [RegionSet.claim_of_le (h.capacity ▸ Nat.le_of_not_lt beyond), h.capacity]
    rfl

theorem contains (h : s.Represents set) (i : Nat) :
    (s.contains i).map Answer.flag = set.about i (decide (i ∈ set.indices)) := by
  unfold IndexSet.about
  split
  · next inside =>
    rw [h.wellFormed.contains (h.capacity ▸ inside), h.bit_eq i]
    rfl
  · next beyond =>
    rw [contains_of_le (h.capacity ▸ Nat.le_of_not_lt beyond), h.capacity]
    rfl

theorem claim_snd (h : s.Represents set) (i : Nat) : (s.claim i).2.Represents (set.claim i) := by
  by_cases inside : i < s.capacity
  · rw [h.wellFormed.claim inside]
    exact h.insert inside
  · have beyond : s.capacity ≤ i := Nat.le_of_not_lt inside
    rw [RegionSet.claim_of_le beyond, IndexSet.claim_of_le (h.capacity ▸ beyond)]
    exact h

/-- A request is answered as the set says. -/
theorem serve_fst (h : s.Represents set) {request : Request} {answer : Except Fault Answer}
    (known : set.answer? request = some answer) : (s.serve request).1 = answer := by
  cases request with
  | claim index => exact (h.claim_fst index).trans (Option.some.inj known)
  | contains index => exact (h.contains index).trans (Option.some.inj known)
  | count =>
      rw [← Option.some.inj known, ← h.count_eq_card]
      rfl
  | capacity =>
      rw [← Option.some.inj known, ← h.capacity]
      rfl
  | clear => exact Option.some.inj known
  | resize capacity => exact Option.some.inj known
  | members =>
      rw [← Option.some.inj known, ← h.members_eq_sort]
      rfl
  | inspect => cases known

/-- A request makes of the bits what it makes of the set. -/
theorem serve_snd (h : s.Represents set) (request : Request) :
    (s.serve request).2.Represents (set.after request) := by
  cases request with
  | claim index => exact h.claim_snd index
  | clear =>
      have cleared := of_clear h.wellFormed.clear s.bit_clear
      rw [IndexSet.after, ← h.capacity]
      exact cleared
  | resize capacity =>
      have cleared := of_clear (s.wellFormed_resize capacity) (s.bit_resize capacity)
      rw [s.capacity_resize capacity] at cleared
      exact cleared
  | contains index => exact h
  | count => exact h
  | capacity => exact h
  | members => exact h
  | inspect => exact h

/-- A request that faults leaves the words and the capacity as they were. -/
theorem serve_of_error (h : s.Represents set) {request : Request} {fault : Fault}
    (faulted : (s.serve request).1 = .error fault) : (s.serve request).2 = s := by
  cases request with
  | claim index =>
      by_cases inside : index < s.capacity
      · have answered : (s.serve (.claim index)).1 = .ok (.flag (!s.bit index)) := by
          rw [serve, h.wellFormed.claim inside]
          rfl
        rw [answered] at faulted
        cases faulted
      · rw [serve, RegionSet.claim_of_le (Nat.le_of_not_lt inside)]
  | clear => cases faulted
  | resize capacity => cases faulted
  | contains index => rfl
  | count => rfl
  | capacity => rfl
  | members => rfl
  | inspect => rfl

end Represents

/-! ## Every sequence of requests -/

theorem represents_finalState {s : RegionSet} {set : IndexSet} (h : s.Represents set)
    (requests : List Request) :
    (finalState serve s requests).Represents (requests.foldl IndexSet.after set) := by
  induction requests generalizing s set with
  | nil => exact h
  | cons request rest ih => exact ih (h.serve_snd request)

/-- After every sequence of requests, those that fault included, a region set stands for the set of
indices that the same requests make of the empty one: as many words as the capacity needs, a bit set in
them exactly for each index of the set, and every further request answered from the set; a request that
faults changes nothing. -/
theorem represents_served (capacity : Nat) (requests : List Request) :
    let set := requests.foldl IndexSet.after (.empty capacity)
    let s := finalState serve (RegionSet.empty capacity) requests
    s.Represents set ∧
      (∀ k (inside : k < s.words.size), ∀ j < 64,
        s.words[k].getLsbD j = true ↔ 64 * k + j ∈ set.indices) ∧
      (∀ request answer, set.answer? request = some answer → (s.serve request).1 = answer) ∧
      ∀ request fault, (s.serve request).1 = .error fault → (s.serve request).2 = s := by
  intro set s
  have first : (RegionSet.empty capacity).Represents (.empty capacity) :=
    .of_clear (wellFormed_empty capacity) (bit_empty capacity)
  have now : s.Represents set := represents_finalState first requests
  refine ⟨now, ?_, ?_, ?_⟩
  · intro k inside j narrow
    exact now.getLsbD_iff inside narrow
  · intro request answer known
    exact now.serve_fst known
  · intro request fault faulted
    exact now.serve_of_error faulted

end RegionSet

end Evacuation
