import Evacuation.Proofs.RegionSet.Enumeration
import Evacuation.Recorder.Basic

/-!
# The link between claims and journal

A recorder keeps its failed regions twice: as bits of a region set and as entries of a journal.  The
two are cleared, resized and written by separate steps, and `Recorder.Linked` says that they agree
between calls: the journal has as many slots as the set has indices, and its entries enumerate the
set.  Every call keeps the link, whether it comes to its end or faults part-way.
-/

namespace Evacuation

namespace Journal

def push (j : Journal) (value : UInt32) : Journal :=
  ⟨j.slots.setIfInBounds j.cursor.toNat value, j.cursor + 1⟩

theorem capacity_push (j : Journal) (value : UInt32) : (j.push value).capacity = j.capacity := by
  simp [push, capacity]

theorem entries_of_unreserved {j : Journal} (unreserved : j.cursor = 0) : j.entries = [] := by
  simp [entries, length, unreserved]

/-- While there is room, the store after a reservation cannot fault. -/
theorem store_reserve {j : Journal} (room : j.length < j.capacity) (profile : Profile)
    (value : UInt32) :
    j.reserve.2.store profile j.reserve.1 value = (.ok (), j.push value) := by
  have inside : j.cursor.toNat < j.slots.size := room
  simp [reserve, store, push, inside]

theorem entries_push {j : Journal} (room : j.length < j.capacity)
    (narrow : j.capacity < UInt32.size) (value : UInt32) :
    (j.push value).entries = j.entries ++ [value] := by
  have word : j.length + 1 < UInt64.size := by
    have wide : UInt32.size < UInt64.size := by decide
    omega
  have stored : (j.append .plain value).2 = j.push value := by
    rw [append]
    exact congrArg Prod.snd (store_reserve room .plain value)
  rw [← stored]
  exact (entries_append room word).2

theorem length_push {j : Journal} (room : j.length < j.capacity)
    (narrow : j.capacity < UInt32.size) (value : UInt32) :
    (j.push value).length = j.length + 1 := by
  have wide : UInt32.size < UInt64.size := by decide
  exact length_reserve (j := j) (by omega)

/-- Every reserved position below the capacity has a value, so that reading it cannot fault. -/
theorem get?_eq {j : Journal} (within : j.length ≤ j.capacity) (position : Nat) :
    j.get? position = .ok j.entries[position]? := by
  unfold get?
  split
  · next reserved =>
    have inside : position < j.slots.size := Nat.lt_of_lt_of_le reserved within
    simp [entries, inside, reserved]
  · next free =>
    have past : j.entries.length ≤ position := by
      rw [length_entries]
      omega
    rw [List.getElem?_eq_none past]

end Journal

namespace Recorder

/-! ## Sizes -/

/-- The two halves of the storage are of one size, which fits in an index. -/
structure Sized (r : Recorder) : Prop where
  wellFormed : r.failed.WellFormed
  narrow : r.failed.capacity < UInt32.size
  room : r.journal.capacity = r.failed.capacity

/-- Nothing is claimed and nothing is listed; the slots may hold any values. -/
structure Blank (r : Recorder) : Prop extends Sized r where
  free : ∀ i, r.failed.bit i = false
  unlisted : r.journal.cursor = 0

/-- A pause has just been begun. -/
structure Opened (r : Recorder) : Prop extends Blank r where
  recording : r.phase = .recording

/-- The journal lists every claimed index once, and nothing else. -/
structure Linked (r : Recorder) : Prop extends Sized r where
  reserved : r.journal.length ≤ r.journal.capacity
  listed : r.failed.Enumerates r.journal.entries

theorem Sized.toNat_maxRegions {r : Recorder} (h : r.Sized) :
    r.maxRegions.toNat = r.failed.capacity :=
  UInt32.toNat_ofNat_of_lt' h.narrow

theorem Blank.entries_eq_nil {r : Recorder} (h : r.Blank) : r.journal.entries = [] :=
  Journal.entries_of_unreserved h.unlisted

theorem Blank.linked {r : Recorder} (h : r.Blank) : r.Linked where
  toSized := h.toSized
  reserved := by simp [Journal.length, h.unlisted]
  listed := by
    rw [h.entries_eq_nil]
    exact .of_clear h.free

theorem blank_ofSize (size : UInt32) : (ofSize size).Blank where
  wellFormed := RegionSet.wellFormed_empty size.toNat
  narrow := UInt32.toNat_lt size
  room := by simp [ofSize, Journal.empty, Journal.capacity, RegionSet.empty]
  free := RegionSet.bit_empty size.toNat
  unlisted := rfl

theorem Sized.blank_clear {r : Recorder} (h : r.Sized) : r.clear.Blank where
  wellFormed := h.wellFormed.clear
  narrow := h.narrow
  room := h.room
  free := r.failed.bit_clear
  unlisted := rfl

theorem Sized.capacity_prepare {r : Recorder} (h : r.Sized) (size : UInt32) :
    (r.prepare size).failed.capacity = max r.failed.capacity size.toNat := by
  unfold prepare
  split
  · next grown =>
    have larger : r.failed.capacity < size.toNat := by
      rw [← h.toNat_maxRegions]
      exact UInt32.lt_iff_toNat_lt.mp grown
    rw [Nat.max_eq_right (Nat.le_of_lt larger)]
    exact r.failed.capacity_resize size.toNat
  · next kept =>
    have smaller : size.toNat ≤ r.failed.capacity := by
      rw [← h.toNat_maxRegions]
      exact Nat.le_of_not_lt fun grown => kept (UInt32.lt_iff_toNat_lt.mpr grown)
    rw [Nat.max_eq_left smaller]
    rfl

theorem Sized.blank_prepare {r : Recorder} (h : r.Sized) (size : UInt32) :
    (r.prepare size).Blank := by
  unfold prepare
  split
  · refine ⟨⟨RegionSet.wellFormed_resize r.failed size.toNat, ?_, ?_⟩, ?_, ?_⟩
    · rw [RegionSet.capacity_resize]
      exact UInt32.toNat_lt size
    · rw [Journal.capacity_resize, RegionSet.capacity_resize]
    · exact r.failed.bit_resize size.toNat
    · unfold Journal.resize
      split <;> rfl
  · exact h.blank_clear

/-! ## One more region -/

/-- The recorder with one more region claimed and listed. -/
def enlist (r : Recorder) (index : UInt32) : Recorder :=
  { r with failed := r.failed.insert index.toNat, journal := r.journal.push index }

namespace Linked

variable {r : Recorder}

theorem length_entries (h : r.Linked) : r.journal.entries.length = r.journal.length := by
  rw [Journal.length_entries, Nat.min_eq_left h.reserved]

/-- The next free slot is the number of the regions listed. -/
theorem cursor_eq (h : r.Linked) : r.journal.cursor = UInt64.ofNat r.journal.entries.length := by
  rw [h.length_entries, Journal.length, UInt64.ofNat_toNat]

/-- As long as an index is free, so is a slot. -/
theorem slot_of_free (h : r.Linked) {index : UInt32} (inside : index.toNat < r.failed.capacity)
    (free : r.failed.bit index.toNat = false) : r.journal.length < r.journal.capacity := by
  have more := h.listed.insert h.wellFormed inside free
  have bound := more.length_le (h.wellFormed.insert inside) (Nat.le_of_lt h.narrow)
  rw [List.length_cons, h.length_entries] at bound
  rw [h.room]
  exact bound

theorem enlist (h : r.Linked) {index : UInt32} (inside : index.toNat < r.failed.capacity)
    (free : r.failed.bit index.toNat = false) : (r.enlist index).Linked := by
  have slot := h.slot_of_free inside free
  have narrow : r.journal.capacity < UInt32.size := h.room ▸ h.narrow
  refine ⟨⟨h.wellFormed.insert inside, h.narrow, ?_⟩, ?_, ?_⟩
  · rw [Recorder.enlist, Journal.capacity_push]
    exact h.room
  · rw [Recorder.enlist, Journal.capacity_push, Journal.length_push slot narrow]
    exact slot
  · rw [Recorder.enlist, Journal.entries_push slot narrow]
    have more := h.listed.insert h.wellFormed inside free
    exact more.of_perm (List.perm_append_singleton index r.journal.entries).symm

theorem entries_enlist (h : r.Linked) {index : UInt32} (inside : index.toNat < r.failed.capacity)
    (free : r.failed.bit index.toNat = false) :
    (r.enlist index).journal.entries = r.journal.entries ++ [index] :=
  Journal.entries_push (h.slot_of_free inside free) (h.room ▸ h.narrow) index

end Linked

/-! ## What a call can do -/

variable {τ : Type} [Layout τ]

theorem claim_of_free {r : Recorder} (wellFormed : r.failed.WellFormed) {profile : Profile}
    (allowed : (profile.checks && r.phase != .recording) = false) {index : UInt32}
    (inside : index.toNat < r.failed.capacity) (free : r.failed.bit index.toNat = false) :
    r.claim profile index = (.ok true, { r with failed := r.failed.insert index.toNat }) := by
  simp [claim, allowed, wellFormed.claim inside, free]

theorem claim_of_taken {r : Recorder} (wellFormed : r.failed.WellFormed) {profile : Profile}
    (allowed : (profile.checks && r.phase != .recording) = false) {index : UInt32}
    (taken : r.failed.bit index.toNat = true) : r.claim profile index = (.ok false, r) := by
  simp [claim, allowed, wellFormed.claim (wellFormed.lt_capacity taken), taken,
    wellFormed.insert_claimed taken]

theorem claim_of_le {r : Recorder} {profile : Profile}
    (allowed : (profile.checks && r.phase != .recording) = false) {index : UInt32}
    (beyond : r.failed.capacity ≤ index.toNat) :
    r.claim profile index = (.error (.regionOutOfRange index.toNat r.failed.capacity), r) := by
  simp [claim, allowed, RegionSet.claim_of_le beyond]

theorem record_of_refused {r : Recorder} {profile : Profile}
    (refused : (profile.checks && r.phase != .recording) = true) (table : Table τ) (index : UInt32) :
    r.record profile table index = .faulted (.recordOutside r.phase) (r, table) [] := by
  simp [Recorder.record, claim, refused]

theorem record_of_le {r : Recorder} {profile : Profile}
    (allowed : (profile.checks && r.phase != .recording) = false) {index : UInt32}
    (beyond : r.failed.capacity ≤ index.toNat) (table : Table τ) :
    r.record profile table index =
      .faulted (.regionOutOfRange index.toNat r.failed.capacity) (r, table) [] := by
  simp [Recorder.record, claim_of_le allowed beyond]

theorem record_of_taken {r : Recorder} (wellFormed : r.failed.WellFormed) {profile : Profile}
    (allowed : (profile.checks && r.phase != .recording) = false) {index : UInt32}
    (taken : r.failed.bit index.toNat = true) (table : Table τ) :
    r.record profile table index = .done false (r, table) [] := by
  simp [Recorder.record, claim_of_taken wellFormed allowed taken]

/-- A recording that wins the claim has listed the region before it tells the region, whatever that
comes to. -/
theorem Linked.record_of_free {r : Recorder} (h : r.Linked) {profile : Profile}
    (allowed : (profile.checks && r.phase != .recording) = false) {index : UInt32}
    (inside : index.toNat < r.failed.capacity) (free : r.failed.bit index.toNat = false)
    (table : Table τ) :
    r.record profile table index =
      ⟨(table.note index).1.map fun () => true, (r.enlist index, (table.note index).2),
        [.regionRecorded r.span index r.journal.cursor]⟩ := by
  have slot := h.slot_of_free inside free
  simp only [Recorder.record, claim_of_free h.wellFormed allowed inside free, Recorder.reserve,
    Recorder.store]
  rw [Journal.store_reserve slot]
  cases told : table.note index with
  | mk result after =>
      cases result with
      | error fault => rfl
      | ok _ => rfl

/-- A recording is refused by the phase or by the range, loses the claim, or wins it. -/
theorem Linked.record {r : Recorder} (h : r.Linked) (profile : Profile) (table : Table τ)
    (index : UInt32) :
    ((profile.checks && r.phase != .recording) = true ∧
        r.record profile table index = .faulted (.recordOutside r.phase) (r, table) []) ∨
      (r.failed.capacity ≤ index.toNat ∧
        r.record profile table index =
          .faulted (.regionOutOfRange index.toNat r.failed.capacity) (r, table) []) ∨
      (r.failed.bit index.toNat = true ∧
        r.record profile table index = .done false (r, table) []) ∨
      (index.toNat < r.failed.capacity ∧ r.failed.bit index.toNat = false ∧
        r.record profile table index =
          ⟨(table.note index).1.map fun () => true, (r.enlist index, (table.note index).2),
            [.regionRecorded r.span index r.journal.cursor]⟩) := by
  cases allowed : profile.checks && r.phase != .recording with
  | true => exact Or.inl ⟨rfl, record_of_refused allowed table index⟩
  | false =>
      refine Or.inr ?_
      by_cases inside : index.toNat < r.failed.capacity
      · refine Or.inr ?_
        cases taken : r.failed.bit index.toNat with
        | true => exact Or.inl ⟨rfl, record_of_taken h.wellFormed allowed taken table⟩
        | false => exact Or.inr ⟨inside, rfl, h.record_of_free allowed inside taken table⟩
      · have beyond := Nat.le_of_not_lt inside
        exact Or.inl ⟨beyond, record_of_le allowed beyond table⟩

/-- A pause is refused and nothing changes, or the storage is prepared and the pause begun, unless
the pauses cannot be counted any further. -/
theorem beginPause_cases (profile : Profile) (offered requested : UInt32) (r : Recorder)
    (totals : Totals) :
    (∃ fault, r.beginPause profile offered requested totals = .faulted fault (r, totals) []) ∨
      (∃ fault counted, totals.openPause profile = (.error fault, counted) ∧
        r.beginPause profile offered requested totals =
          .faulted fault (r.prepare requested, counted) []) ∨
      (∃ pauseId counted, totals.openPause profile = (.ok pauseId, counted) ∧
        r.beginPause profile offered requested totals =
          .done ()
            ({ r.prepare requested with phase := .recording, pauseId, span := some pauseId }, counted)
            (.spanOpened pauseId (r.prepare requested).maxRegions ::
              (r.prepare requested).spanEnd)) := by
  unfold beginPause
  split
  · exact Or.inl ⟨.alreadyRecording, rfl⟩
  split
  · exact Or.inl ⟨.beyondTable requested offered, rfl⟩
  refine Or.inr ?_
  cases opened : totals.openPause profile with
  | mk result counted =>
      cases result with
      | error fault => exact Or.inl ⟨fault, counted, rfl, rfl⟩
      | ok pauseId => exact Or.inr ⟨pauseId, counted, rfl, rfl⟩

/-- A pause that was begun has the next number, which is that of all pauses so far. -/
theorem beginPause_of_ok {profile : Profile} {offered requested : UInt32} {r : Recorder}
    {totals : Totals} (begun : (r.beginPause profile offered requested totals).result = .ok ()) :
    (r.beginPause profile offered requested totals).state =
      ({ r.prepare requested with
          phase := .recording, pauseId := totals.pauses + 1, span := some (totals.pauses + 1) },
        { totals with pauses := totals.pauses + 1 }) := by
  obtain ⟨_, same⟩ | ⟨_, _, _, same⟩ | ⟨pauseId, counted, opened, same⟩ :=
    beginPause_cases profile offered requested r totals
  · rw [same] at begun
    cases begun
  · rw [same] at begun
    cases begun
  · unfold Totals.openPause at opened
    dsimp only at opened
    split at opened
    · cases (Prod.mk.inj opened).1
    · obtain ⟨number, rfl⟩ := Prod.mk.inj opened
      rw [same, ← Except.ok.inj number]
      rfl

theorem sealPause_of_refused {profile : Profile} {r : Recorder}
    (refused : (profile.checks && r.phase != .recording) = true) (nanos : UInt64) (totals : Totals) :
    r.sealPause profile nanos totals = .faulted (.sealOutside r.phase) (r, totals) [] := by
  simp [sealPause, refused]

theorem sealPause_of_allowed {profile : Profile} {r : Recorder}
    (allowed : (profile.checks && r.phase != .recording) = false) (nanos : UInt64)
    (totals : Totals) :
    r.sealPause profile nanos totals =
      .done ⟨r.pauseId, r.journal.cursor, r.maxRegions, nanos⟩
        ({ r with phase := .sealed },
          totals.add ⟨r.pauseId, r.journal.cursor, r.maxRegions, nanos⟩)
        [.recordingSealed r.span ⟨r.pauseId, r.journal.cursor, r.maxRegions, nanos⟩] := by
  simp [sealPause, allowed]

/-- Sealing is refused and nothing changes, or only the phase does. -/
theorem sealPause_cases (profile : Profile) (nanos : UInt64) (r : Recorder) (totals : Totals) :
    (r.sealPause profile nanos totals).state.1 = r ∨
      (r.sealPause profile nanos totals).state.1 = { r with phase := .sealed } := by
  cases allowed : profile.checks && r.phase != .recording with
  | true =>
      rw [sealPause_of_refused allowed]
      exact Or.inl rfl
  | false =>
      rw [sealPause_of_allowed allowed]
      exact Or.inr rfl

theorem sealPause_of_recording (profile : Profile) (nanos : UInt64) {r : Recorder} (totals : Totals)
    (recording : r.phase = .recording) :
    (r.sealPause profile nanos totals).result =
        .ok ⟨r.pauseId, r.journal.cursor, r.maxRegions, nanos⟩ ∧
      (r.sealPause profile nanos totals).state =
        ({ r with phase := .sealed },
          totals.add ⟨r.pauseId, r.journal.cursor, r.maxRegions, nanos⟩) := by
  rw [sealPause_of_allowed (by simp [recording])]
  exact ⟨rfl, rfl⟩

/-! ## Every operation keeps the link -/

/-- Phase, pause and span are no part of the link. -/
theorem Linked.congr {r s : Recorder} (h : r.Linked) (failed : s.failed = r.failed)
    (journal : s.journal = r.journal) : s.Linked := by
  refine ⟨⟨?_, ?_, ?_⟩, ?_, ?_⟩
  · rw [failed]
    exact h.wellFormed
  · rw [failed]
    exact h.narrow
  · rw [failed, journal]
    exact h.room
  · rw [journal]
    exact h.reserved
  · rw [failed, journal]
    exact h.listed

theorem Linked.after_beginPause {r : Recorder} (h : r.Linked) (profile : Profile)
    (offered requested : UInt32) (totals : Totals) :
    (r.beginPause profile offered requested totals).state.1.Linked := by
  have prepared := (h.blank_prepare requested).linked
  obtain ⟨_, same⟩ | ⟨_, _, _, same⟩ | ⟨_, _, _, same⟩ :=
    beginPause_cases profile offered requested r totals
  · rw [same]
    exact h
  · rw [same]
    exact prepared
  · rw [same]
    exact prepared.congr rfl rfl

/-- Whatever came before, beginning a pause leaves nothing claimed and nothing listed. -/
theorem Linked.opened {r : Recorder} (h : r.Linked) {profile : Profile}
    {offered requested : UInt32} {totals : Totals}
    (begun : (r.beginPause profile offered requested totals).result = .ok ()) :
    (r.beginPause profile offered requested totals).state.1.Opened := by
  have blank := h.blank_prepare requested
  obtain ⟨_, same⟩ | ⟨_, _, _, same⟩ | ⟨_, _, _, same⟩ :=
    beginPause_cases profile offered requested r totals
  · rw [same] at begun
    cases begun
  · rw [same] at begun
    cases begun
  · rw [same]
    exact ⟨⟨⟨blank.wellFormed, blank.narrow, blank.room⟩, blank.free, blank.unlisted⟩, rfl⟩

theorem Linked.after_record {r : Recorder} (h : r.Linked) (profile : Profile) (table : Table τ)
    (index : UInt32) : (r.record profile table index).state.1.Linked := by
  obtain ⟨_, same⟩ | ⟨_, same⟩ | ⟨_, same⟩ | ⟨inside, free, same⟩ := h.record profile table index
  · rw [same]
    exact h
  · rw [same]
    exact h
  · rw [same]
    exact h
  · rw [same]
    exact h.enlist inside free

theorem Linked.after_sealPause {r : Recorder} (h : r.Linked) (profile : Profile) (nanos : UInt64)
    (totals : Totals) : (r.sealPause profile nanos totals).state.1.Linked := by
  obtain same | same := sealPause_cases profile nanos r totals
  · rw [same]
    exact h
  · rw [same]
    exact h.congr rfl rfl

theorem Linked.after_reset {r : Recorder} (h : r.Linked) : r.reset.1.Linked :=
  h.blank_clear.linked.congr rfl rfl

end Recorder

end Evacuation
