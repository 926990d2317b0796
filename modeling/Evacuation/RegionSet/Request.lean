import Evacuation.Outcome

/-!
# Region sets

A set of region indices below a capacity, one bit for each, packed into 64-bit words.  Claiming an
index sets its bit and tells whether the bit was clear before, so that of all the claims on one index
exactly one is told `true`.

`RegionSet.bit` is the view through which the operations are described, `RegionSet.WellFormed` says
what every set built by these operations keeps: as many words as the capacity needs, and no bit at or
beyond the capacity.  `RegionSet.serve` serves the operations as requests, one at a time.
-/

namespace Evacuation

/-! ## Words -/

abbrev Word := BitVec 64

namespace Word

def single (i : Nat) : Word :=
  BitVec.twoPow 64 i

/-- The number of bits set in a word; most words of a large set have none, and are not looked into. -/
def weight (word : Word) : Nat :=
  if word = 0#64 then 0 else (List.range 64).countP word.getLsbD

theorem getLsbD_single {i j : Nat} (hi : i < 64) :
    (single i).getLsbD j = decide (i = j) := by
  simp [single, BitVec.getLsbD_twoPow, hi]

theorem weight_eq (word : Word) : word.weight = (List.range 64).countP word.getLsbD := by
  unfold weight
  split
  · next zero =>
    rw [zero]
    decide
  · rfl

/-- Masking a word with a single bit leaves nothing exactly if the bit is clear. -/
theorem and_single_eq_zero (word : Word) {i : Nat} (hi : i < 64) :
    (word &&& single i == 0#64) = !word.getLsbD i := by
  cases found : word.getLsbD i with
  | false =>
    have empty : word &&& single i = 0#64 := by
      apply BitVec.eq_of_getLsbD_eq
      intro j hj
      by_cases same : i = j
      · subst same
        simp [found]
      · simp [getLsbD_single hi, same]
    simp [empty]
  | true =>
    have full : word &&& single i ≠ 0#64 := by
      intro empty
      have bit := congrArg (fun w : Word => w.getLsbD i) empty
      simp [getLsbD_single hi, found] at bit
    simpa using full

/-- Setting a single bit changes that bit and no other. -/
theorem getLsbD_or_single {word : Word} {i j : Nat} (hi : i < 64) :
    (word ||| single i).getLsbD j = (word.getLsbD j || decide (i = j)) := by
  simp [getLsbD_single hi]

end Word

/-! ## Sets -/

/-- The indices claimed so far, out of those below the capacity. -/
structure RegionSet where
  /-- The bits, 64 to a word, lowest index first. -/
  words : Array Word
  capacity : Nat
  deriving DecidableEq, Repr

namespace RegionSet

def wordsFor (capacity : Nat) : Nat :=
  (capacity + 63) / 64

def empty (capacity : Nat) : RegionSet :=
  ⟨Array.replicate (wordsFor capacity) 0#64, capacity⟩

def bit (s : RegionSet) (i : Nat) : Bool :=
  (s.words.getD (i / 64) 0#64).getLsbD (i % 64)

def locate (s : RegionSet) (i : Nat) : Except Fault (Nat × Word) :=
  if i < s.capacity then
    .ok (i / 64, Word.single (i % 64))
  else
    .error (.regionOutOfRange i s.capacity)

def load (s : RegionSet) (position : Nat) : Except Fault Word :=
  match s.words[position]? with
  | some word => .ok word
  | none => .error (.indexOutOfBounds s.words.size position)

/-- Sets the bits of `mask` in one word and answers with the word as it was, in one atomic step. -/
def fetchOr (s : RegionSet) (position : Nat) (mask : Word) : Except Fault Word × RegionSet :=
  match s.load position with
  | .ok word => (.ok word, { s with words := s.words.setIfInBounds position (word ||| mask) })
  | .error fault => (.error fault, s)

def claim (s : RegionSet) (i : Nat) : Except Fault Bool × RegionSet :=
  match s.locate i with
  | .error fault => (.error fault, s)
  | .ok (position, mask) =>
    let (before, s) := s.fetchOr position mask
    (before.map fun word => word &&& mask == 0#64, s)

def contains (s : RegionSet) (i : Nat) : Except Fault Bool := do
  let (position, mask) ← s.locate i
  let word ← s.load position
  return word &&& mask != 0#64

def count (s : RegionSet) : Nat :=
  s.words.foldl (fun total word => total + word.weight) 0

def members (s : RegionSet) : List Nat :=
  (List.range s.capacity).filter s.bit

def clear (s : RegionSet) : RegionSet :=
  { s with words := s.words.map fun _ => 0#64 }

/-- Gives the set another capacity and clears it, keeping its words when their number fits. -/
def resize (s : RegionSet) (capacity : Nat) : RegionSet :=
  if wordsFor capacity = s.words.size then
    { s.clear with capacity }
  else
    empty capacity

/-- What a set's operations keep: enough words for the capacity, and none of the spare bits set. -/
structure WellFormed (s : RegionSet) : Prop where
  size_words : s.words.size = wordsFor s.capacity
  spare_clear : ∀ i, s.capacity ≤ i → s.bit i = false

def inspect (s : RegionSet) : String :=
  Text.record "RegionBitmap"
    [("words", Text.list (s.words.toList.map fun word => toString word.toNat)),
     ("capacity", toString s.capacity)]

/-! ## Requests -/

inductive Request where
  | claim (index : Nat)
  | contains (index : Nat)
  | count
  | capacity
  | clear
  | resize (capacity : Nat)
  | members
  | inspect
  deriving DecidableEq, Repr

def serve (s : RegionSet) : Request → Except Fault Answer × RegionSet
  | .claim index =>
    let (won, s) := s.claim index
    (won.map .flag, s)
  | .contains index => ((s.contains index).map .flag, s)
  | .count => (.ok (.number s.count), s)
  | .capacity => (.ok (.number s.capacity), s)
  | .clear => (.ok .nothing, s.clear)
  | .resize capacity => (.ok .nothing, s.resize capacity)
  | .members => (.ok (.numbers s.members), s)
  | .inspect => (.ok (.text s.inspect), s)

end RegionSet

end Evacuation
