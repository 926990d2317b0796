import Evacuation.Journal.Request
import Evacuation.Proofs.Recorder.Linked
import Evacuation.Proofs.Transcript

/-!
# What a journal was to be filled with

A journal can be overfull: the cursor counts the appends that found no slot as well, and the slots keep
values of earlier fillings.  A `Filling` has neither cursor nor slots.  It is the list of the values of
all appends since the journal was last empty, those that faulted included, and the number of slots there
are for them; every answer of the journal is read off it.

`Holds.serve_snd` is one request, and `filled_served` every sequence of them.
-/

namespace Evacuation

/-- The values that were to be appended since a journal was last empty, and the number of its slots. -/
structure Filling where
  attempts : List UInt32
  capacity : Nat

namespace Filling

def empty (capacity : Nat) : Filling :=
  ⟨[], capacity⟩

def kept (f : Filling) : List UInt32 :=
  f.attempts.take f.capacity

/-- What becomes of a filling on a request; an append is an attempt, whether it finds a slot or not. -/
def after (f : Filling) : Journal.Request → Filling
  | .append value => { f with attempts := f.attempts ++ [value] }
  | .clear => empty f.capacity
  | .resize capacity => empty capacity
  | .length | .isEmpty | .capacity | .get _ | .entries | .take _ | .inspect => f

/-- What the next append comes to: its slot is its number, unless there is no such slot. -/
def next (profile : Profile) (f : Filling) : Except Fault Answer :=
  if f.attempts.length < f.capacity then
    .ok (.number f.attempts.length)
  else if profile.checks then
    .error (.journalFull f.attempts.length f.capacity)
  else
    .error (.indexOutOfBounds f.capacity f.attempts.length)

def lookup (f : Filling) (position : Nat) : Except Fault Answer :=
  match f.attempts[position]? with
  | none => .ok (.slot none)
  | some value =>
    if position < f.capacity then .ok (.slot (some value))
    else .error (.indexOutOfBounds f.capacity position)

/-- The answer to a request; the text of a journal shows its stale slots, which are no part of it. -/
def answer? (profile : Profile) (f : Filling) : Journal.Request → Option (Except Fault Answer)
  | .append _ => some (f.next profile)
  | .length => some (.ok (.number f.attempts.length))
  | .isEmpty => some (.ok (.flag f.attempts.isEmpty))
  | .capacity => some (.ok (.number f.capacity))
  | .get position => some (f.lookup position)
  | .entries => some (.ok (.indices f.kept))
  | .take n => some (.ok (.take n f.kept))
  | .clear | .resize _ => some (.ok .nothing)
  | .inspect => none

theorem kept_append_of_lt {f : Filling} (room : f.attempts.length < f.capacity) (value : UInt32) :
    (f.after (.append value)).kept = f.kept ++ [value] := by
  have both : (f.attempts ++ [value]).length ≤ f.capacity := by
    rw [List.length_append]
    exact room
  have all : f.kept = f.attempts := List.take_of_length_le (Nat.le_of_lt room)
  rw [all]
  exact List.take_of_length_le both

theorem kept_append_of_le {f : Filling} (full : f.capacity ≤ f.attempts.length) (value : UInt32) :
    (f.after (.append value)).kept = f.kept :=
  List.take_append_of_le_length full

/-- A request is one attempt at most. -/
theorem length_after_le (f : Filling) (request : Journal.Request) :
    (f.after request).attempts.length ≤ f.attempts.length + 1 := by
  cases request <;> simp [after, empty]

theorem length_foldl_le (f : Filling) (requests : List Journal.Request) :
    (requests.foldl after f).attempts.length ≤ f.attempts.length + requests.length := by
  induction requests generalizing f with
  | nil => exact Nat.le_refl _
  | cons request rest ih =>
      have first := f.length_after_le request
      have others := ih (f.after request)
      rw [List.foldl_cons, List.length_cons]
      omega

end Filling

namespace Journal

/-- A journal holds a filling: the cursor counts its attempts, and the entries are those of them for
which there was a slot. -/
structure Holds (j : Journal) (f : Filling) : Prop where
  slots : j.capacity = f.capacity
  reserved : j.length = f.attempts.length
  entries : j.entries = f.kept

theorem append_of_room {j : Journal} (room : j.length < j.capacity) (profile : Profile)
    (value : UInt32) : j.append profile value = (.ok j.cursor, j.push value) := by
  have stored := store_reserve room profile value
  unfold append
  dsimp only
  rw [stored]
  rfl

/-- Without a slot an append faults, stores nothing and advances the cursor. -/
theorem append_of_full {j : Journal} (full : j.capacity ≤ j.length) (profile : Profile)
    (value : UInt32) :
    j.append profile value =
      (.error (if profile.checks then .journalFull j.length j.capacity
        else .indexOutOfBounds j.capacity j.length), { j with cursor := j.cursor + 1 }) := by
  have outside : ¬j.cursor.toNat < j.slots.size := Nat.not_lt.mpr full
  cases checks : profile.checks <;>
    simp [append, reserve, store, outside, checks, Except.map, length, capacity]

theorem entries_of_full {j : Journal} (full : j.capacity ≤ j.length) : j.entries = j.slots.toList :=
  List.take_of_length_le (by rw [Array.length_toList]; exact full)

theorem get?_of_free {j : Journal} {position : Nat} (free : j.length ≤ position) :
    j.get? position = .ok none :=
  if_neg (Nat.not_lt.mpr free)

theorem get?_of_full {j : Journal} {position : Nat} (reserved : position < j.length)
    (full : j.capacity ≤ position) :
    j.get? position = .error (.indexOutOfBounds j.capacity position) := by
  have outside : ¬position < j.slots.size := Nat.not_lt.mpr full
  simp [get?, reserved, outside, capacity]

theorem get?_of_entry {j : Journal} {position : Nat} {value : UInt32}
    (entry : j.entries[position]? = some value) : j.get? position = .ok (some value) := by
  have reserved : position < j.length := by
    have inside := (List.getElem?_eq_some_iff.mp entry).1
    rw [length_entries] at inside
    omega
  have stored : j.slots[position]? = some value := by
    rwa [entries, List.getElem?_take_of_lt reserved, Array.getElem?_toList] at entry
  simp [get?, reserved, stored]

namespace Holds

variable {j : Journal} {f : Filling}

theorem of_unreserved (unreserved : j.cursor = 0) : j.Holds (.empty j.capacity) where
  slots := rfl
  reserved := by
    rw [length, unreserved]
    rfl
  entries := by
    rw [entries_of_unreserved unreserved]
    exact List.take_nil.symm

/-! ## One request -/

theorem append_fst (h : j.Holds f) (profile : Profile) (value : UInt32) :
    ((j.append profile value).1.map fun slot => Answer.number slot.toNat) = f.next profile := by
  unfold Filling.next
  split
  · next room =>
    rw [append_of_room (by rw [h.reserved, h.slots]; exact room), ← h.reserved]
    rfl
  · next full =>
    rw [append_of_full (by rw [h.reserved, h.slots]; exact Nat.le_of_not_lt full), h.reserved,
      h.slots]
    cases profile.checks <;> rfl

/-- An append is one attempt more; the entries grow by it as long as there is a slot. -/
theorem append_snd (h : j.Holds f) (profile : Profile) (value : UInt32)
    (few : (f.after (.append value)).attempts.length < UInt64.size) :
    (j.append profile value).2.Holds (f.after (.append value)) := by
  have word : j.length + 1 < UInt64.size := by
    rw [h.reserved]
    simpa [Filling.after] using few
  have advanced : (j.cursor + 1).toNat = f.attempts.length + 1 := by
    rw [← h.reserved]
    exact length_reserve word
  have counted : (f.after (.append value)).attempts.length = f.attempts.length + 1 :=
    List.length_append
  by_cases room : j.length < j.capacity
  · have listed : (j.append profile value).2.entries = j.entries ++ [value] :=
      (entries_append room word).2
    rw [append_of_room room] at listed ⊢
    refine ⟨?_, advanced.trans counted.symm, ?_⟩
    · rw [capacity_push]
      exact h.slots
    · rw [h.reserved, h.slots] at room
      rw [listed, h.entries, Filling.kept_append_of_lt room]
  · have full : j.capacity ≤ j.length := Nat.le_of_not_lt room
    rw [append_of_full full]
    refine ⟨h.slots, advanced.trans counted.symm, ?_⟩
    have past : j.capacity ≤ Journal.length { j with cursor := j.cursor + 1 } := by
      refine Nat.le_trans full ?_
      rw [h.reserved]
      exact Nat.le_of_lt (Nat.lt_of_lt_of_eq (Nat.lt_succ_self _) advanced.symm)
    rw [entries_of_full past, ← entries_of_full full, h.entries]
    rw [h.reserved, h.slots] at full
    exact (Filling.kept_append_of_le full value).symm

theorem get (h : j.Holds f) (position : Nat) :
    (j.get? position).map Answer.slot = f.lookup position := by
  unfold Filling.lookup
  split
  · next absent =>
    have free : j.length ≤ position := by
      rw [h.reserved]
      exact List.getElem?_eq_none_iff.mp absent
    rw [get?_of_free free]
    rfl
  · next value present =>
    split
    · next inside =>
      have entry : j.entries[position]? = some value := by
        rw [h.entries, Filling.kept, List.getElem?_take_of_lt inside]
        exact present
      rw [get?_of_entry entry]
      rfl
    · next full =>
      have reserved : position < j.length := by
        rw [h.reserved]
        exact (List.getElem?_eq_some_iff.mp present).1
      have outside : j.capacity ≤ position := by
        rw [h.slots]
        exact Nat.le_of_not_lt full
      rw [get?_of_full reserved outside, h.slots]
      rfl

/-- A request is answered as the filling says. -/
theorem serve_fst (h : j.Holds f) {profile : Profile} {request : Request}
    {answer : Except Fault Answer} (known : f.answer? profile request = some answer) :
    (j.serve profile request).1 = answer := by
  cases request with
  | append value => exact (h.append_fst profile value).trans (Option.some.inj known)
  | get position => exact (h.get position).trans (Option.some.inj known)
  | length =>
      rw [← Option.some.inj known, ← h.reserved]
      rfl
  | isEmpty =>
      have same : (j.length == 0) = f.attempts.isEmpty := by
        rw [h.reserved]
        cases f.attempts <;> rfl
      rw [← Option.some.inj known, ← same]
      rfl
  | capacity =>
      rw [← Option.some.inj known, ← h.slots]
      rfl
  | entries =>
      rw [← Option.some.inj known, ← h.entries]
      rfl
  | take n =>
      rw [← Option.some.inj known, ← h.entries]
      rfl
  | clear => exact Option.some.inj known
  | resize capacity => exact Option.some.inj known
  | inspect => cases known

/-- A request makes of the journal what it makes of the filling. -/
theorem serve_snd (h : j.Holds f) (profile : Profile) (request : Request)
    (few : (f.after request).attempts.length < UInt64.size) :
    (j.serve profile request).2.Holds (f.after request) := by
  cases request with
  | append value => exact h.append_snd profile value few
  | clear =>
      have cleared : j.clear.Holds (.empty j.capacity) := of_unreserved rfl
      rw [h.slots] at cleared
      exact cleared
  | resize capacity =>
      have unreserved : (j.resize capacity).cursor = 0 := by
        unfold resize
        split <;> rfl
      have cleared := of_unreserved unreserved
      rw [j.capacity_resize capacity] at cleared
      exact cleared
  | get position => exact h
  | length => exact h
  | isEmpty => exact h
  | capacity => exact h
  | entries => exact h
  | take n => exact h
  | inspect => exact h

/-! ## Every sequence of requests -/

theorem finalState (h : j.Holds f) (profile : Profile) {requests : List Request}
    (few : ∀ earlier, earlier <+: requests →
      (earlier.foldl Filling.after f).attempts.length < UInt64.size) :
    (Evacuation.finalState (serve profile) j requests).Holds (requests.foldl Filling.after f) := by
  induction requests generalizing j f with
  | nil => exact h
  | cons request rest ih =>
      have first : (f.after request).attempts.length < UInt64.size :=
        few [request] (List.cons_prefix_cons.mpr ⟨rfl, List.nil_prefix⟩)
      refine ih (h.serve_snd profile request first) ?_
      intro earlier within
      exact few (request :: earlier) (List.cons_prefix_cons.mpr ⟨rfl, within⟩)

end Holds

/-- After every sequence of requests, those that fault included, a journal holds the filling that the
same requests make of the empty one, and every further request is answered from that; an append for
which there is no slot advances the cursor and changes nothing else.  The cursor is a word, so no more
than a word can count may be attempted at a time. -/
theorem filled_served (profile : Profile) (capacity : Nat) (requests : List Request)
    (few : ∀ earlier, earlier <+: requests →
      (earlier.foldl Filling.after (.empty capacity)).attempts.length < UInt64.size) :
    let f := requests.foldl Filling.after (.empty capacity)
    let j := finalState (serve profile) (Journal.empty capacity) requests
    j.Holds f ∧
      (∀ request answer, f.answer? profile request = some answer →
        (j.serve profile request).1 = answer) ∧
      ∀ value, f.capacity ≤ f.attempts.length →
        (j.serve profile (.append value)).2 = { j with cursor := j.cursor + 1 } := by
  intro f j
  have first : (Journal.empty capacity).Holds (.empty capacity) := by
    have unreserved : (Journal.empty capacity).Holds (.empty (Journal.empty capacity).capacity) :=
      .of_unreserved rfl
    rwa [show (Journal.empty capacity).capacity = capacity from Array.size_replicate] at unreserved
  have now : j.Holds f := first.finalState profile few
  refine ⟨now, fun request answer known => now.serve_fst known, ?_⟩
  intro value full
  have outside : j.capacity ≤ j.length := by
    rw [now.slots, now.reserved]
    exact full
  exact congrArg Prod.snd (append_of_full outside profile value)

/-- A journal of two slots that was overfull, was cleared and is overfull again: it shows nothing of its
first filling, and only the first two values of its second one. -/
theorem filled_served_overfull :
    let requests : List Request :=
      [.append 7, .append 3, .append 9, .entries, .clear, .append 5, .get 1, .append 6, .append 4]
    let j := finalState (serve .debug) (Journal.empty 2) requests
    (∀ earlier, earlier <+: requests →
      (earlier.foldl Filling.after (.empty 2)).attempts.length < UInt64.size) ∧
      j.Holds ⟨[5, 6, 4], 2⟩ ∧ (j.serve .debug .length).1 = .ok (.number 3) ∧
      (j.serve .debug .entries).1 = .ok (.indices [5, 6]) ∧
      (j.serve .debug (.get 2)).1 = .error (.indexOutOfBounds 2 2) ∧
      (j.serve .debug (.append 8)).1 = .error (.journalFull 3 2) ∧
      (j.serve .debug (.append 8)).2 = { j with cursor := j.cursor + 1 } := by
  intro requests j
  have few : ∀ earlier, earlier <+: requests →
      (earlier.foldl Filling.after (.empty 2)).attempts.length < UInt64.size := by
    intro earlier within
    have bound := Filling.length_foldl_le (.empty 2) earlier
    have short : earlier.length ≤ 9 := within.length_le
    exact Nat.lt_of_le_of_lt (Nat.le_trans bound (Nat.add_le_add_left short 0)) (by decide)
  obtain ⟨holds, answers, overfull⟩ := filled_served .debug 2 requests few
  exact ⟨few, holds, answers _ _ rfl, answers _ _ rfl, answers _ _ rfl, answers _ _ rfl,
    overfull 8 (by decide)⟩

end Journal

end Evacuation
