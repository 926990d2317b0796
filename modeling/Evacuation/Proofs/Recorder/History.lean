import Evacuation.Proofs.Recorder.Linked
import Evacuation.Recorder.Walk

/-!
# Histories of calls

A history is the calls made on one recorder since it was new, in any order and in any phase, each in
surroundings of its own: the table, the totals and the claim board that it meets may be different
from one call to the next.  A call that faults leaves the recorder where it had got to.  After every
history the claims and the journal agree, so that all readers tell the same story and no writer runs
out of slots.
-/

namespace Evacuation

inductive Call (τ σ : Type) where
  | beginPause (offered requested : UInt32) (totals : Totals)
  | record (table : Table τ) (index : UInt32)
  | sealPause (nanos : UInt64) (totals : Totals)
  | reset
  | anyFailed
  | count
  | contains (index : UInt32)
  | listing
  | walk (board : ClaimBoard) (worker : UInt64) (visit : Visitor σ) (visits : σ)

namespace Recorder

variable {τ σ : Type} [Layout τ]

/-- The recorder after a call; one that faulted has left it where it had got to. -/
def afterCall (profile : Profile) (r : Recorder) : Call τ σ → Recorder
  | .beginPause offered requested totals => (r.beginPause profile offered requested totals).state.1
  | .record table index => (r.record profile table index).state.1
  | .sealPause nanos totals => (r.sealPause profile nanos totals).state.1
  | .reset => r.reset.1
  | .anyFailed | .count | .contains _ | .listing | .walk .. => r

def afterCalls (profile : Profile) (r : Recorder) (calls : List (Call τ σ)) : Recorder :=
  calls.foldl (afterCall profile) r

/-! ## Every call keeps the link -/

theorem Linked.afterCall {r : Recorder} (h : r.Linked) (profile : Profile) (call : Call τ σ) :
    (r.afterCall profile call).Linked := by
  cases call with
  | beginPause offered requested totals => exact h.after_beginPause profile offered requested totals
  | record table index => exact h.after_record profile table index
  | sealPause nanos totals => exact h.after_sealPause profile nanos totals
  | reset => exact h.after_reset
  | anyFailed => exact h
  | count => exact h
  | contains index => exact h
  | listing => exact h
  | walk board worker visit visits => exact h

theorem Linked.afterCalls {r : Recorder} (h : r.Linked) (profile : Profile)
    (calls : List (Call τ σ)) : (r.afterCalls profile calls).Linked := by
  induction calls generalizing r with
  | nil => exact h
  | cons call rest ih => exact ih (h.afterCall profile call)

/-! ## What the readers and the writers find -/

theorem readable_of_checks {p : Profile} {r : Recorder}
    (paused : p.checks = true → r.phase ≠ .recording) : r.readable p = .ok () := by
  cases checks : p.checks with
  | true => simp [readable, paused checks]
  | false => simp [readable, checks]

theorem allowed_of_checks {p : Profile} {r : Recorder}
    (recording : p.checks = true → r.phase = .recording) :
    (p.checks && r.phase != .recording) = false := by
  cases checks : p.checks with
  | true => simp [recording checks]
  | false => rfl

theorem Linked.contains {r : Recorder} (h : r.Linked) {profile : Profile}
    (readable : r.readable profile = .ok ()) (index : UInt32) :
    r.contains profile index =
      if index.toNat < r.failed.capacity then .ok (decide (index ∈ r.journal.entries))
      else .error (.regionOutOfRange index.toNat r.failed.capacity) := by
  have passed : r.contains profile index = r.failed.contains index.toNat := by
    simp [Recorder.contains, readable, bind, Except.bind]
  rw [passed]
  split
  · next inside =>
    rw [h.wellFormed.contains inside]
    congr 1
    rw [Bool.eq_iff_iff, decide_eq_true_eq]
    exact (h.listed.mem_iff index).symm
  · next beyond => exact RegionSet.contains_of_le (Nat.le_of_not_lt beyond)

/-- The winner of a claim stores its index in a slot that exists. -/
theorem Linked.store {r : Recorder} (h : r.Linked) {profile : Profile} {index : UInt32}
    {won : Recorder} (claimed : r.claim profile index = (.ok true, won)) :
    (won.reserve.2.store profile won.reserve.1 index).1 = .ok () := by
  cases allowed : profile.checks && r.phase != .recording with
  | true => simp [Recorder.claim, allowed] at claimed
  | false =>
      by_cases inside : index.toNat < r.failed.capacity
      · cases taken : r.failed.bit index.toNat with
        | true =>
            rw [claim_of_taken h.wellFormed allowed taken] at claimed
            cases (Prod.mk.inj claimed).1
        | false =>
            rw [claim_of_free h.wellFormed allowed inside taken] at claimed
            have slot := h.slot_of_free inside taken
            rw [← (Prod.mk.inj claimed).2]
            exact congrArg Prod.fst (Journal.store_reserve slot profile index)
      · rw [claim_of_le allowed (Nat.le_of_not_lt inside)] at claimed
        cases (Prod.mk.inj claimed).1

/-- The regions listed, the bits set, the readers and the writers of a recorder agree. -/
structure Coherent (τ : Type) [Layout τ] (profile : Profile) (r : Recorder) : Prop where
  cursor_le_slots : r.journal.length ≤ r.journal.capacity
  slots_eq_capacity : r.journal.capacity = r.failed.capacity
  entries_nodup : r.journal.entries.Nodup
  entries_below : ∀ index ∈ r.journal.entries, index.toNat < r.failed.capacity
  bit_iff : ∀ i, r.failed.bit i = true ↔ ∃ index ∈ r.journal.entries, index.toNat = i
  bits_eq_length : r.failed.count = r.journal.entries.length
  listing_eq : r.readable profile = .ok () → r.listing profile = .ok r.journal.entries
  count_eq : r.readable profile = .ok () → r.count profile = .ok r.journal.entries.length
  anyFailed_eq : r.readable profile = .ok () →
    r.anyFailed profile = .ok (!r.journal.entries.isEmpty)
  contains_eq : r.readable profile = .ok () → ∀ index : UInt32,
    r.contains profile index =
      if index.toNat < r.failed.capacity then .ok (decide (index ∈ r.journal.entries))
      else .error (.regionOutOfRange index.toNat r.failed.capacity)
  get?_eq : ∀ position, r.journal.get? position = .ok r.journal.entries[position]?
  /-- The winner of a claim finds a slot. -/
  store_ok : ∀ (index : UInt32) (won : Recorder), r.claim profile index = (.ok true, won) →
    (won.reserve.2.store profile won.reserve.1 index).1 = .ok ()
  record_fault : ∀ (table : Table τ) (index : UInt32) (fault : Fault),
    (r.record profile table index).result = .error fault →
      fault = .recordOutside r.phase ∨
        fault = .regionOutOfRange index.toNat r.failed.capacity ∨
        (table.note index).1 = .error fault

theorem Linked.coherent {r : Recorder} (h : r.Linked) (profile : Profile) :
    r.Coherent τ profile where
  cursor_le_slots := h.reserved
  slots_eq_capacity := h.room
  entries_nodup := h.listed.nodup
  entries_below := fun _ member => h.listed.lt_capacity h.wellFormed member
  bit_iff := h.listed.bit_iff h.wellFormed (Nat.le_of_lt h.narrow)
  bits_eq_length := h.listed.count_eq_length h.wellFormed (Nat.le_of_lt h.narrow)
  listing_eq := by
    intro readable
    simp [Recorder.listing, readable, bind, Except.bind, pure, Except.pure]
  count_eq := by
    intro readable
    simp [Recorder.count, readable, bind, Except.bind, pure, Except.pure, h.length_entries]
  anyFailed_eq := by
    intro readable
    have counted : r.count profile = .ok r.journal.entries.length := by
      simp [Recorder.count, readable, bind, Except.bind, pure, Except.pure, h.length_entries]
    cases listed : r.journal.entries <;>
      simp [Recorder.anyFailed, counted, listed, bind, Except.bind, pure, Except.pure]
  contains_eq := fun readable => h.contains readable
  get?_eq := Journal.get?_eq h.reserved
  store_ok := fun _ _ claimed => h.store claimed
  record_fault := by
    intro table index fault faulted
    obtain ⟨_, same⟩ | ⟨_, same⟩ | ⟨_, same⟩ | ⟨_, _, same⟩ := h.record profile table index
    · rw [same] at faulted
      exact Or.inl (Except.error.inj faulted).symm
    · rw [same] at faulted
      exact Or.inr (Or.inl (Except.error.inj faulted).symm)
    · rw [same] at faulted
      cases faulted
    · rw [same] at faulted
      cases told : (table.note index).1 with
      | error cause =>
          rw [told] at faulted
          exact Or.inr (Or.inr (congrArg Except.error (Except.error.inj faulted)))
      | ok _ =>
          rw [told] at faulted
          cases faulted

/-- After any history of calls, faulted ones included, claims, journal, readers and writers agree. -/
theorem coherent_afterCalls (profile : Profile) (size : UInt32) (calls : List (Call τ σ)) :
    ((ofSize size).afterCalls profile calls).Coherent τ profile :=
  ((blank_ofSize size).linked.afterCalls profile calls).coherent profile

end Recorder

end Evacuation
