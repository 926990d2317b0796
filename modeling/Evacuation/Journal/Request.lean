import Evacuation.Outcome

/-!
# Journals

A journal is a fixed run of slots filled in the order in which they are reserved.  A writer reserves
a slot by advancing the cursor, then stores its value there; the two are separate atomic steps, and
`Journal.append` takes both.

The cursor counts every reservation, also one beyond the capacity, so the readers cut it off in three
ways: `length` is the cursor itself, `entries` stops at the capacity, and `get?` faults between the
capacity and the cursor.  `Journal.serve` serves the operations as requests, one at a time.
-/

namespace Evacuation

/-- Slots filled by reservation, lowest first. -/
structure Journal where
  /-- The stored values; slots at or beyond the cursor may hold values of an earlier filling. -/
  slots : Array UInt32
  /-- The number of reservations since the journal was last empty, modulo the word size. -/
  cursor : UInt64
  deriving DecidableEq, Repr

namespace Journal

def empty (capacity : Nat) : Journal :=
  ⟨Array.replicate capacity 0, 0⟩

def capacity (j : Journal) : Nat :=
  j.slots.size

def length (j : Journal) : Nat :=
  j.cursor.toNat

def reserve (j : Journal) : UInt64 × Journal :=
  (j.cursor, { j with cursor := j.cursor + 1 })

/-- Stores a value in a reserved slot; a checking profile calls a slot beyond the capacity by name.
A store that faults changes nothing. -/
def store (profile : Profile) (j : Journal) (slot : UInt64) (value : UInt32) :
    Except Fault Unit × Journal :=
  if slot.toNat < j.slots.size then
    (.ok (), { j with slots := j.slots.setIfInBounds slot.toNat value })
  else if profile.checks then
    (.error (.journalFull slot.toNat j.slots.size), j)
  else
    (.error (.indexOutOfBounds j.slots.size slot.toNat), j)

/-- Reserves the next slot and stores a value in it; a store that faults leaves the slot reserved. -/
def append (profile : Profile) (j : Journal) (value : UInt32) : Except Fault UInt64 × Journal :=
  let (slot, j) := j.reserve
  let (stored, j) := j.store profile slot value
  (stored.map fun () => slot, j)

def get? (j : Journal) (position : Nat) : Except Fault (Option UInt32) :=
  if position < j.length then
    match j.slots[position]? with
    | some value => .ok (some value)
    | none => .error (.indexOutOfBounds j.slots.size position)
  else
    .ok none

def entries (j : Journal) : List UInt32 :=
  j.slots.toList.take j.length

/-- Forgets every reservation; the slots keep their values. -/
def clear (j : Journal) : Journal :=
  { j with cursor := 0 }

/-- Gives the journal another capacity and clears it, keeping its slots when their number fits. -/
def resize (j : Journal) (capacity : Nat) : Journal :=
  if capacity = j.slots.size then j.clear else empty capacity

def inspect (j : Journal) : String :=
  Text.record "AppendLog"
    [("slots", Text.list (j.slots.toList.map toString)),
     ("cursor", Text.record "CachePadded" [("value", toString j.cursor)])]

theorem length_reserve {j : Journal} (h : j.length + 1 < UInt64.size) :
    j.reserve.2.length = j.length + 1 := by
  have bound : j.cursor.toNat + 1 < UInt64.size := h
  change (j.cursor + 1).toNat = j.cursor.toNat + 1
  exact (UInt64.toNat_add j.cursor 1).trans (Nat.mod_eq_of_lt bound)

/-- An append below the capacity hands out the next slot and adds its value to the entries. -/
theorem entries_append {profile : Profile} {j : Journal} {value : UInt32}
    (room : j.length < j.capacity) (h : j.length + 1 < UInt64.size) :
    (j.append profile value).1 = .ok j.cursor ∧
      (j.append profile value).2.entries = j.entries ++ [value] := by
  have bound : j.cursor.toNat < j.slots.size := room
  have advanced : (j.cursor + 1).toNat = j.cursor.toNat + 1 := length_reserve h
  have beyond : (j.slots.toList.take j.cursor.toNat).set j.cursor.toNat value =
      j.slots.toList.take j.cursor.toNat :=
    List.set_eq_of_length_le (List.length_take_le ..)
  simp [append, reserve, store, bound, entries, length, advanced, Except.map, List.take_set,
    List.take_add_one, beyond]

theorem length_entries (j : Journal) : j.entries.length = min j.length j.capacity := by
  simp [entries, capacity]

theorem entries_clear (j : Journal) : j.clear.entries = [] := by
  simp [entries, clear, length]

theorem capacity_resize (j : Journal) (c : Nat) : (j.resize c).capacity = c := by
  unfold resize
  split
  · next h => simp [capacity, clear, h]
  · simp [capacity, empty]

/-! ## Requests -/

inductive Request where
  | append (value : UInt32)
  | length
  | isEmpty
  | capacity
  | get (position : Nat)
  | entries
  | take (n : Nat)
  | clear
  | resize (capacity : Nat)
  | inspect
  deriving DecidableEq, Repr

def serve (profile : Profile) (j : Journal) : Request → Except Fault Answer × Journal
  | .append value =>
    let (slot, j) := j.append profile value
    (slot.map fun slot => .number slot.toNat, j)
  | .length => (.ok (.number j.length), j)
  | .isEmpty => (.ok (.flag (j.length == 0)), j)
  | .capacity => (.ok (.number j.capacity), j)
  | .get position => ((j.get? position).map .slot, j)
  | .entries => (.ok (.indices j.entries), j)
  | .take n => (.ok (.take n j.entries), j)
  | .clear => (.ok .nothing, j.clear)
  | .resize capacity => (.ok .nothing, j.resize capacity)
  | .inspect => (.ok (.text j.inspect), j)

end Journal

end Evacuation
