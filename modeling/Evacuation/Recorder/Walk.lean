import Evacuation.ClaimBoard.Request
import Evacuation.Recorder.Basic

/-!
# Walks over a listing

After a pause several workers walk one listing together.  Each goes once round the listing from a
start of its own, and visits an entry only if it wins the entry's claim, so that among the workers
that share a board each region is visited once.

A step of a walk tries one entry; `claimEntry` is its first half, the visit its second.  A fault of
the claim leaves the entry free, a fault of the visit leaves it claimed.
-/

namespace Evacuation

/-- The positions of `length` entries in the order of a round that begins at `start`; a round that
would begin beyond the last entry begins at the first. -/
def roundFrom (start length : Nat) : List Nat :=
  (List.range length).drop start ++ (List.range length).take start

theorem filter_lt_range (start length : Nat) :
    (List.range start).filter (· < length) = List.range (min start length) := by
  induction start with
  | zero => simp
  | succ k ih =>
    rw [List.range_succ, List.filter_append, ih]
    by_cases inside : k < length
    · have below : min k length = k := Nat.min_eq_left (Nat.le_of_lt inside)
      have next : min (k + 1) length = k + 1 := Nat.min_eq_left inside
      rw [below, next]
      simp [inside, List.range_succ]
    · have past : length ≤ k := Nat.le_of_not_lt inside
      have below : min k length = length := Nat.min_eq_right past
      have next : min (k + 1) length = length := Nat.min_eq_right (Nat.le_succ_of_le past)
      simp [inside, below, next]

/-- A round counts up from `start` to the end and then from the first position up to `start`, and
leaves out the positions at which there is no entry. -/
theorem roundFrom_eq_filter (start length : Nat) :
    roundFrom start length =
      (List.range' start (length - start) ++ List.range start).filter (· < length) := by
  have first : (List.range' start (length - start)).filter (· < length) =
      (List.range length).drop start := by
    rw [List.filter_eq_self.mpr]
    · simp [List.range_eq_range', List.drop_range']
    · intro position member
      have bounds := List.mem_range'_1.mp member
      simp
      omega
  have second : (List.range start).filter (· < length) = (List.range length).take start := by
    rw [filter_lt_range, List.take_range]
  rw [List.filter_append, first, second, roundFrom]

/-- Tries to claim the entry at one position of a journal, and answers with the entry if it was won;
a position at which nothing is listed is passed over. -/
def claimEntry (journal : Journal) (board : ClaimBoard) (position : Nat) :
    Except Fault (Option UInt32) × ClaimBoard :=
  match journal.get? position with
  | .error fault => (.error fault, board)
  | .ok none => (.ok none, board)
  | .ok (some index) =>
    let (won, board) := board.claim index
    (won.map fun won => if won then some index else none, board)

abbrev Visitor (σ : Type) :=
  UInt32 → σ → Except Fault Unit × σ

/-- The visitor that looks up the region behind an entry and passes it on. -/
def Table.visitor {τ σ : Type} [Layout τ] (table : Table τ)
    (visit : Region → σ → Except Fault Unit × σ) : Visitor σ := fun index state =>
  match table.region index with
  | .error fault => (.error fault, state)
  | .ok region => visit region state

/-- Where a walk came to: its end or a fault, the board, and the visitor's state. -/
structure Walk (σ : Type) where
  result : Except Fault Unit
  board : ClaimBoard
  visits : σ

namespace Recorder

variable {σ : Type}

def walkOver (journal : Journal) (visit : Visitor σ) :
    List Nat → ClaimBoard → σ → Walk σ
  | [], board, state => ⟨.ok (), board, state⟩
  | position :: rest, board, state =>
    match claimEntry journal board position with
    | (.error fault, board) => ⟨.error fault, board, state⟩
    | (.ok none, board) => walkOver journal visit rest board state
    | (.ok (some index), board) =>
      match visit index state with
      | (.error fault, state) => ⟨.error fault, board, state⟩
      | (.ok (), state) => walkOver journal visit rest board state

/-- The positions a worker tries, in order.  An empty listing asks the board for no offset. -/
def route (profile : Profile) (r : Recorder) (board : ClaimBoard) (worker : UInt64) :
    Except Fault (List Nat) := do
  r.readable profile
  if r.journal.cursor = 0 then
    return []
  let start ← board.offset profile worker r.journal.cursor
  return roundFrom start.toNat r.journal.length

def walk (profile : Profile) (r : Recorder) (board : ClaimBoard) (worker : UInt64)
    (visit : Visitor σ) (state : σ) : Walk σ :=
  match r.route profile board worker with
  | .error fault => ⟨.error fault, board, state⟩
  | .ok positions => walkOver r.journal visit positions board state

end Recorder

end Evacuation
