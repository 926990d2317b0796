import Evacuation.Fault

/-!
# Heaps

A heap is a fixed run of regions.  A region is told that evacuation failed in it, counts how often it
was told, and forgets when it is cleared.
-/

namespace Evacuation

structure Region where
  index : UInt32
  failed : Bool
  /-- How often the region was told since it was last cleared, modulo the word size. -/
  notes : UInt64
  deriving DecidableEq, Repr

namespace Region

def fresh (index : UInt32) : Region :=
  ⟨index, false, 0⟩

def note (r : Region) : Region :=
  { r with failed := true, notes := r.notes + 1 }

def clear (r : Region) : Region :=
  { r with failed := false, notes := 0 }

def touched (r : Region) : Bool :=
  r.failed || r.notes != 0

def inspect (r : Region) : String :=
  Text.record "Region"
    [("index", toString r.index), ("evacuation_failed", toString r.failed),
     ("failure_notes", toString r.notes)]

end Region

structure Heap where
  regions : Array Region
  deriving DecidableEq, Repr

namespace Heap

def ofSize (size : UInt32) : Heap :=
  ⟨Array.ofFn fun position : Fin size.toNat => Region.fresh (UInt32.ofNat position)⟩

def size (h : Heap) : Nat :=
  h.regions.size

def region (h : Heap) (position : UInt32) : Except Fault Region :=
  match h.regions[position.toNat]? with
  | some region => .ok region
  | none => .error (.indexOutOfBounds h.regions.size position.toNat)

def update (h : Heap) (position : UInt32) (change : Region → Region) :
    Except Fault Unit × Heap :=
  if position.toNat < h.regions.size then
    (.ok (), { h with regions := h.regions.modify position.toNat change })
  else
    (.error (.indexOutOfBounds h.regions.size position.toNat), h)

def failedRegions (h : Heap) : List UInt32 :=
  (h.regions.toList.filter Region.failed).map Region.index

def touched (h : Heap) : List Region :=
  h.regions.toList.filter Region.touched

def clear (h : Heap) : Heap :=
  { h with regions := h.regions.map Region.clear }

theorem size_ofSize (n : UInt32) : (ofSize n).size = n.toNat := by
  simp [size, ofSize]

theorem size_update (h : Heap) (position : UInt32) (change : Region → Region) :
    (h.update position change).2.size = h.size := by
  unfold update
  split <;> simp [size]

end Heap

end Evacuation
