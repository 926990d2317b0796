import Mathlib.Algebra.Order.Floor.Div
import Mathlib.Data.Nat.ModEq
import Mathlib.Order.Interval.Set.Union
import Evacuation.ClaimBoard.Request

/-!
# Shares of a listing

The workers of a board start at evenly spaced positions of the listing.  The share of a worker runs from
its start up to the start of the next worker, and that of the last one up to the end of the listing.
`EvenSplit` says what makes a split into shares an even one; `offsets_split` says that the offsets of a
board are the starts of one, in every profile, as long as the product of the last worker fits in a word.
-/

namespace Evacuation

section Split

variable {length workers worker : Nat}

/-! ## Splitting a length -/

/-- Where the share of a worker starts; for the number after the last worker, where the listing ends. -/
def shareStart (length workers worker : Nat) : Nat :=
  length * worker / workers

theorem shareStart_zero : shareStart length workers 0 = 0 := by
  simp [shareStart]

theorem shareStart_workers (shared : 0 < workers) : shareStart length workers workers = length :=
  Nat.mul_div_cancel length shared

theorem shareStart_le {v w : Nat} (ordered : v ≤ w) :
    shareStart length workers v ≤ shareStart length workers w :=
  Nat.div_le_div_right (Nat.mul_le_mul_left length ordered)

/-- A worker starts within what there is to split. -/
theorem shareStart_lt (listed : 0 < length) (numbered : worker < workers) :
    shareStart length workers worker < length := by
  have share : length * worker < workers * length := by
    rw [Nat.mul_comm workers]
    exact Nat.mul_lt_mul_of_pos_left numbered listed
  exact Nat.div_lt_of_lt_mul share

/-- A worker within range starts within the listing, also where the product wraps. -/
theorem share_lt (listed : 0 < length) (numbered : worker < workers) :
    length * worker % UInt64.size / workers < length := by
  have wrapped : length * worker % UInt64.size / workers ≤ shareStart length workers worker :=
    Nat.div_le_div_right (Nat.mod_le _ _)
  exact Nat.lt_of_le_of_lt wrapped (shareStart_lt listed numbered)

/-- What does not divide evenly is rounded up to the next number. -/
theorem ceilDiv_of_mod_pos (shared : 0 < workers) (rest : 0 < length % workers) :
    length ⌈/⌉ workers = length / workers + 1 := by
  have whole := Nat.div_add_mod length workers
  apply Nat.le_antisymm
  · rw [ceilDiv_le_iff_le_mul shared, Nat.mul_add_one]
    have bounded := Nat.mod_lt length shared
    omega
  · by_contra short
    have within := (ceilDiv_le_iff_le_mul shared).mp (Nat.le_of_lt_succ (Nat.lt_of_not_le short))
    omega

/-- From one start to the next it is the length by the number of workers, rounded down or up. -/
theorem shareStart_succ (shared : 0 < workers) (worker : Nat) :
    shareStart length workers (worker + 1) = shareStart length workers worker + length / workers ∨
      shareStart length workers (worker + 1) =
        shareStart length workers worker + length ⌈/⌉ workers := by
  unfold shareStart
  rw [Nat.mul_add_one, Nat.add_div shared]
  by_cases carried : workers ≤ length * worker % workers + length % workers
  · have rest : 0 < length % workers := by
      have bounded := Nat.mod_lt (length * worker) shared
      omega
    right
    rw [if_pos carried, ceilDiv_of_mod_pos shared rest, Nat.add_assoc]
  · left
    rw [if_neg carried, Nat.add_zero]

/-- Where there is enough for all workers, each starts before the next. -/
theorem shareStart_strictMono (shared : 0 < workers) (enough : workers ≤ length) :
    StrictMono (shareStart length workers) := by
  apply strictMono_nat_of_lt_succ
  intro worker
  have one : 0 < length / workers := Nat.div_pos enough shared
  have next : shareStart length workers worker + length / workers ≤
      shareStart length workers (worker + 1) := by
    unfold shareStart
    rw [Nat.mul_add_one]
    exact Nat.div_add_div_le_add_div
  omega

/-! ## Even splits -/

def InShare (start : Nat → Nat) (worker position : Nat) : Prop :=
  start worker ≤ position ∧ position < start (worker + 1)

/-- The starts of the workers, and the end after the last of them, split a length evenly. -/
structure EvenSplit (length workers : Nat) (start : Nat → Nat) : Prop where
  first : start 0 = 0
  last : start workers = length
  ordered : ∀ v w, v ≤ w → w ≤ workers → start v ≤ start w
  /-- A share is as long as the length by the number of workers, rounded down or up. -/
  gap : ∀ worker < workers, start (worker + 1) = start worker + length / workers ∨
    start (worker + 1) = start worker + length ⌈/⌉ workers
  inside : ∀ worker < workers, ∀ position, InShare start worker position → position < length
  /-- No position is left out, and none lies in two shares. -/
  covered : ∀ position < length, ∃! worker, worker < workers ∧ InShare start worker position
  distinct : workers ≤ length → ∀ v < workers, ∀ w < workers, start v = start w → v = w
  below : 0 < length → ∀ worker < workers, start worker < length

/-- Of two workers whose shares hold the same position, neither comes after the other. -/
theorem le_of_inShare {v w position : Nat} (here : InShare (shareStart length workers) v position)
    (there : InShare (shareStart length workers) w position) : v ≤ w := by
  by_contra before
  have next : shareStart length workers (w + 1) ≤ shareStart length workers v :=
    shareStart_le (Nat.lt_of_not_le before)
  have passed : position < shareStart length workers v := Nat.lt_of_lt_of_le there.2 next
  exact Nat.not_le.mpr passed here.1

/-- Every position lies in the share of some worker. -/
theorem exists_inShare (shared : 0 < workers) {position : Nat} (inside : position < length) :
    ∃ worker < workers, InShare (shareStart length workers) worker position := by
  have within : position ∈ Set.Ico (shareStart length workers 0) (shareStart length workers workers) := by
    rw [shareStart_zero, shareStart_workers shared]
    exact ⟨Nat.zero_le position, inside⟩
  have shares := Ico_subset_biUnion_Ico workers (shareStart length workers) within
  obtain ⟨worker, numbered, share⟩ := Set.mem_iUnion₂.mp shares
  exact ⟨worker, Finset.mem_range.mp numbered, share⟩

theorem evenSplit_shareStart (shared : 0 < workers) :
    EvenSplit length workers (shareStart length workers) where
  first := shareStart_zero
  last := shareStart_workers shared
  ordered := fun _ _ ordered _ => shareStart_le ordered
  gap := fun worker _ => shareStart_succ shared worker
  inside := by
    intro worker numbered position share
    have ended : shareStart length workers (worker + 1) ≤ shareStart length workers workers :=
      shareStart_le numbered
    rw [shareStart_workers shared] at ended
    exact Nat.lt_of_lt_of_le share.2 ended
  covered := by
    intro position inside
    obtain ⟨worker, numbered, share⟩ := exists_inShare shared inside
    refine ⟨worker, ⟨numbered, share⟩, ?_⟩
    rintro other ⟨_, there⟩
    exact Nat.le_antisymm (le_of_inShare there share) (le_of_inShare share there)
  distinct := fun enough _ _ _ _ same => (shareStart_strictMono shared enough).injective same
  below := fun listed _ numbered => shareStart_lt listed numbered

end Split

/-! ## The offsets of a board -/

namespace ClaimBoard

variable {profile : Profile} {b : ClaimBoard} {worker length start : UInt64}

/-- A worker is given a start unless a check fails: its number is too large, or the product is. -/
theorem offset_eq_ok_iff :
    b.offset profile worker length = .ok start ↔
      (profile.checks = true → worker < b.workers ∧ length.toNat * worker.toNat < UInt64.size) ∧
        start = length * worker / b.workers := by
  unfold offset product
  cases profile.checks with
  | false => simp [bind, Except.bind, pure, Except.pure, eq_comm]
  | true =>
      by_cases numbered : b.workers ≤ worker
      · have beyond : ¬worker < b.workers := UInt64.not_lt.mpr numbered
        simp [numbered, beyond, throw, throwThe, MonadExceptOf.throw, bind, Except.bind]
      · by_cases large : UInt64.size ≤ length.toNat * worker.toNat
        · simp [numbered, large, bind, Except.bind, Nat.not_lt.mpr large]
        · simp [numbered, large, UInt64.not_le.mp numbered, Nat.lt_of_not_le large, bind,
            Except.bind, pure, Except.pure, eq_comm]

/-- The start of a worker in numbers: its share of the listing, of which a word holds the product. -/
theorem toNat_offset (offset : b.offset profile worker length = .ok start) :
    start.toNat = length.toNat * worker.toNat % UInt64.size / b.workers.toNat := by
  rw [(offset_eq_ok_iff.mp offset).2, UInt64.toNat_div, UInt64.toNat_mul]

/-- A worker within range, whose product fits in a word, is given the start of its share. -/
theorem offset_of_fits (profile : Profile) (numbered : worker < b.workers)
    (fits : length.toNat * worker.toNat < UInt64.size) :
    ∃ start, b.offset profile worker length = .ok start ∧
      start.toNat = shareStart length.toNat b.workers.toNat worker.toNat := by
  have given : b.offset profile worker length = .ok (length * worker / b.workers) :=
    offset_eq_ok_iff.mpr ⟨fun _ => ⟨numbered, fits⟩, rfl⟩
  refine ⟨_, given, ?_⟩
  rw [toNat_offset given, Nat.mod_eq_of_lt fits, shareStart]

/-- The product of a worker fits in a word if that of the last one does. -/
theorem product_fits {entries : Nat} (fits : entries * (b.workers.toNat - 1) < UInt64.size)
    (numbered : worker < b.workers) : entries * worker.toNat < UInt64.size := by
  have last : worker.toNat ≤ b.workers.toNat - 1 :=
    Nat.le_sub_one_of_lt (UInt64.lt_iff_toNat_lt.mp numbered)
  exact Nat.lt_of_le_of_lt (Nat.mul_le_mul_left entries last) fits

/-- Every worker of a board is given an offset, and the offsets are the starts of an even split of the
listing: they begin at zero and never decrease, from one to the next it is the rounded share, the shares
between them hold each position of the listing once, no two workers start together if there are as many
entries as workers, and each starts at an entry if there is one. -/
theorem offsets_split (profile : Profile) (b : ClaimBoard) (length : UInt64)
    (fits : length.toNat * (b.workers.toNat - 1) < UInt64.size) :
    ∃ start : Nat → Nat,
      (∀ worker < b.workers, ∃ offset, b.offset profile worker length = .ok offset ∧
        offset.toNat = start worker.toNat) ∧
      EvenSplit length.toNat b.workers.toNat start := by
  refine ⟨shareStart length.toNat b.workers.toNat, ?_, ?_⟩
  · intro worker numbered
    exact offset_of_fits profile numbered (product_fits fits numbered)
  · exact evenSplit_shareStart (UInt64.lt_iff_toNat_lt.mp b.workers_pos)

/-- Ten entries among four workers: shares of two, three, two and three entries. -/
theorem offsets_split_ten :
    let b : ClaimBoard := ⟨4, Array.replicate 64 false, by decide⟩
    (10 : UInt64).toNat * (b.workers.toNat - 1) < UInt64.size ∧
      [0, 1, 2, 3].map (fun worker => b.offset .debug worker 10) = [.ok 0, .ok 2, .ok 5, .ok 7] ∧
      ∃ start : Nat → Nat, [0, 1, 2, 3, 4].map start = [0, 2, 5, 7, 10] ∧ EvenSplit 10 4 start := by
  intro b
  have fits : (10 : UInt64).toNat * (b.workers.toNat - 1) < UInt64.size := by decide
  obtain ⟨start, starts, split⟩ := offsets_split .debug b 10 fits
  have at_worker : ∀ worker offset : UInt64, worker < 4 →
      b.offset .debug worker 10 = .ok offset → start worker.toNat = offset.toNat := by
    intro worker offset numbered given
    obtain ⟨other, found, value⟩ := starts worker numbered
    rw [given] at found
    rw [← value, Except.ok.inj found]
  have second : start 1 = 2 := at_worker 1 2 (by decide) (by decide)
  have third : start 2 = 5 := at_worker 2 5 (by decide) (by decide)
  have fourth : start 3 = 7 := at_worker 3 7 (by decide) (by decide)
  have ending : start 4 = 10 := split.last
  refine ⟨fits, by decide, start, ?_, split⟩
  simp [split.first, second, third, fourth, ending]

end ClaimBoard

end Evacuation
