import Evacuation.Outcome

/-!
# Region tables

A table lays a space of region indices over a heap.  How it does so is its layout: how many indices
it offers, which position of the heap stands behind an index, and how committing regions changes it.
The layouts here are a fixed heap offered as it is, a heap of which a changing number of regions is
committed, and a heap over which a larger index space is folded.

`Table.serve` serves the operations as requests, one at a time.  Requests for one region go through the
layout; requests for all regions go to the heap behind it.
-/

namespace Evacuation

/-- A way to lay region indices over the positions of a heap. -/
class Layout (τ : Type) where
  maxRegions : τ → UInt32
  place : τ → UInt32 → Except Fault UInt32
  /-- The layout once `n` regions are committed, where commitment can change. -/
  commit : τ → UInt32 → Option τ

inductive Plan where
  | fixed (size : UInt32)
  /-- Every index is its own position once it is committed. -/
  | growing (committed : UInt32)
  /-- An index stands for its remainder by the number of positions. -/
  | folded (size modulus : UInt32)
  deriving DecidableEq, Repr

namespace Plan

def maxRegions : Plan → UInt32
  | fixed size => size
  | growing committed => committed
  | folded size _ => size

def place : Plan → UInt32 → Except Fault UInt32
  | fixed _, index => .ok index
  | growing committed, index =>
    if index < committed then .ok index else .error (.notCommitted index)
  | folded _ modulus, index => .ok (index % modulus)

def commit : Plan → UInt32 → Option Plan
  | growing _, n => some (growing n)
  | fixed _, _ | folded .., _ => none

instance : Layout Plan := ⟨maxRegions, place, commit⟩

end Plan

structure Table (τ : Type) where
  layout : τ
  heap : Heap

namespace Table

variable {τ : Type} [Layout τ]

def maxRegions (t : Table τ) : UInt32 :=
  Layout.maxRegions t.layout

def region (t : Table τ) (index : UInt32) : Except Fault Region := do
  t.heap.region (← Layout.place t.layout index)

def update (t : Table τ) (index : UInt32) (change : Region → Region) :
    Except Fault Unit × Table τ :=
  match Layout.place t.layout index with
  | .error fault => (.error fault, t)
  | .ok position =>
    let (result, heap) := t.heap.update position change
    (result, { t with heap })

def note (t : Table τ) (index : UInt32) : Except Fault Unit × Table τ :=
  t.update index Region.note

def clearRegion (t : Table τ) (index : UInt32) : Except Fault Unit × Table τ :=
  t.update index Region.clear

def commit (t : Table τ) (n : UInt32) : Bool × Table τ :=
  match Layout.commit t.layout n with
  | some layout => (true, { t with layout })
  | none => (false, t)

/-- A table resolves an index when there is a region behind it. -/
def Resolves (t : Table τ) (index : UInt32) : Prop :=
  ∃ region, t.region index = .ok region

def ofSize (size : UInt32) : Table Plan :=
  ⟨.fixed size, .ofSize size⟩

/-! ## Requests -/

inductive Request where
  | note (index : UInt32)
  | region (index : UInt32)
  | clearRegion (index : UInt32)
  | clearAll
  | failedRegions
  | touched
  | heapSize
  | maxRegions
  | inspect (index : UInt32)
  | commit (n : UInt32)
  deriving DecidableEq, Repr

def serve (t : Table τ) : Request → Except Fault Answer × Table τ
  | .note index =>
    let (result, t) := t.note index
    (result.map fun () => .nothing, t)
  | .region index => ((t.region index).map .region, t)
  | .clearRegion index =>
    let (result, t) := t.clearRegion index
    (result.map fun () => .nothing, t)
  | .clearAll => (.ok .nothing, { t with heap := t.heap.clear })
  | .failedRegions => (.ok (.indices t.heap.failedRegions), t)
  | .touched => (.ok (.regions t.heap.touched), t)
  | .heapSize => (.ok (.number t.heap.size), t)
  | .maxRegions => (.ok (.number t.maxRegions.toNat), t)
  | .inspect index => ((t.region index).map fun region => .text region.inspect, t)
  | .commit n =>
    let (committed, t) := t.commit n
    (.ok (.flag committed), t)

end Table

end Evacuation
