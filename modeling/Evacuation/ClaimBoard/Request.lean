import Evacuation.Outcome

/-!
# Claim boards

A claim board hands out each index to at most one of several workers that walk one listing together.
Each worker starts at an offset of its own, so that the walks are spread over the listing.

`ClaimBoard.claimed` is the view through which claiming and releasing are described, and
`ClaimBoard.serve` serves the operations as requests, one at a time.
-/

namespace Evacuation

structure ClaimBoard where
  workers : UInt64
  claims : Array Bool
  workers_pos : 0 < workers
  deriving DecidableEq, Repr

namespace ClaimBoard

def create (workers : UInt64) (size : UInt32) : Except Fault ClaimBoard :=
  if h : 0 < workers then
    .ok ⟨workers, Array.replicate size.toNat false, h⟩
  else
    .error .noWorkers

def product (profile : Profile) (a b : UInt64) : Except Fault UInt64 :=
  if profile.checks && decide (UInt64.size ≤ a.toNat * b.toNat) then
    .error .productOverflow
  else
    .ok (a * b)

/-- Where a worker starts in a listing of `length` entries: its even share of the way in. -/
def offset (profile : Profile) (b : ClaimBoard) (worker length : UInt64) : Except Fault UInt64 := do
  if profile.checks && decide (b.workers ≤ worker) then
    throw (.workerOutOfRange worker b.workers)
  return (← product profile length worker) / b.workers

/-- Claims an index; `true` tells that it was free.  A claim that faults changes nothing. -/
def claim (b : ClaimBoard) (index : UInt32) : Except Fault Bool × ClaimBoard :=
  match b.claims[index.toNat]? with
  | some claimed => (.ok (!claimed), { b with claims := b.claims.setIfInBounds index.toNat true })
  | none => (.error (.indexOutOfBounds b.claims.size index.toNat), b)

def isClaimed (b : ClaimBoard) (index : UInt32) : Except Fault Bool :=
  match b.claims[index.toNat]? with
  | some claimed => .ok claimed
  | none => .error (.indexOutOfBounds b.claims.size index.toNat)

def release (b : ClaimBoard) : ClaimBoard :=
  { b with claims := b.claims.map fun _ => false }

def inspect (b : ClaimBoard) : String :=
  Text.record "RegionClaimer"
    [("n_workers", toString b.workers),
     ("claims", Text.list (b.claims.toList.map toString))]

def claimed (b : ClaimBoard) (index : Nat) : Bool :=
  b.claims.getD index false

def mark (b : ClaimBoard) (index : UInt32) : ClaimBoard :=
  { b with claims := b.claims.setIfInBounds index.toNat true }

/-- A claim within the board answers whether the index was free, and sets it. -/
theorem claim_of_lt {b : ClaimBoard} {index : UInt32} (h : index.toNat < b.claims.size) :
    b.claim index = (.ok (!b.claimed index.toNat), b.mark index) := by
  simp [claim, claimed, mark, h]

/-- A claim beyond the board faults and changes nothing. -/
theorem claim_of_le {b : ClaimBoard} {index : UInt32} (h : b.claims.size ≤ index.toNat) :
    b.claim index = (.error (.indexOutOfBounds b.claims.size index.toNat), b) := by
  simp [claim, h]

theorem claimed_mark {b : ClaimBoard} {index : UInt32} (h : index.toNat < b.claims.size)
    (j : Nat) : (b.mark index).claimed j = (b.claimed j || decide (index.toNat = j)) := by
  by_cases same : index.toNat = j
  · subst same
    simp [claimed, mark, h]
  · simp [claimed, mark, Array.getElem?_setIfInBounds_ne same, same]

theorem claimed_release (b : ClaimBoard) (j : Nat) : b.release.claimed j = false := by
  unfold claimed release
  by_cases inside : j < b.claims.size <;> simp [inside]

/-! ## Requests -/

inductive Request where
  | claim (index : UInt32)
  | isClaimed (index : UInt32)
  | workers
  | offset (worker length : UInt64)
  | release
  | inspect
  deriving DecidableEq, Repr

def serve (profile : Profile) (b : ClaimBoard) : Request → Except Fault Answer × ClaimBoard
  | .claim index =>
    let (won, b) := b.claim index
    (won.map .flag, b)
  | .isClaimed index => ((b.isClaimed index).map .flag, b)
  | .workers => (.ok (.number b.workers.toNat), b)
  | .offset worker length =>
    ((b.offset profile worker length).map fun start => .number start.toNat, b)
  | .release => (.ok .nothing, b.release)
  | .inspect => (.ok (.text b.inspect), b)

end ClaimBoard

end Evacuation
