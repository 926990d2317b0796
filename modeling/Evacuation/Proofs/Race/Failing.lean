import Evacuation.Proofs.Race.Course
import Evacuation.Proofs.Race.Turn
import Evacuation.Race.Cycle

/-!
# What a workload comes to

The regions that a workload records are fixed by its lists alone, and with them everything that a
pause shows and all that the totals add up to.
-/

namespace Evacuation.Race

namespace Workload

def fails (work : Workload) (index : UInt32) : Bool :=
  work.records.any fun indices => decide (index ∈ courseWithin work.regions.toNat indices)

/-- The regions that are recorded in every pause, in ascending order. -/
def failing (work : Workload) : List UInt32 :=
  ((List.range work.regions.toNat).map UInt32.ofNat).filter work.fails

/-- What the pause of a number shows when the first one finds the given totals.  Notes are counted
modulo the word size, so that regions told so often that the count is zero again show none. -/
def report (work : Workload) (first : Totals) (pause : Nat) : PauseReport where
  wins := work.failing.length
  stops := work.records.map (faultBeyond work.regions.toNat)
  sealed :=
    .ok ⟨first.pauses + UInt64.ofNat pause, UInt64.ofNat work.failing.length, work.regions, 0⟩
  listed := work.failing
  claimed := work.failing.map UInt32.toNat
  visited := work.failing
  noted :=
    if UInt64.ofNat pause = 0 then []
    else work.failing.map fun index => ⟨index, true, UInt64.ofNat pause⟩

def totals (work : Workload) (first : Totals) (pauses : Nat) : Totals where
  pauses := first.pauses + UInt64.ofNat pauses
  pausesWithFailures :=
    first.pausesWithFailures + if work.failing = [] then 0 else UInt64.ofNat pauses
  regionsFailed := first.regionsFailed + UInt64.ofNat (pauses * work.failing.length)

theorem fails_iff {work : Workload} {index : UInt32} :
    work.fails index = true ↔
      ∃ indices ∈ work.records, index ∈ courseWithin work.regions.toNat indices := by
  simp only [fails, List.any_eq_true, decide_eq_true_eq]

theorem lt_regions_of_fails {work : Workload} {index : UInt32} (h : work.fails index = true) :
    index.toNat < work.regions.toNat := by
  obtain ⟨_, _, member⟩ := fails_iff.mp h
  exact lt_of_mem_courseWithin member

theorem mem_failing {work : Workload} {index : UInt32} :
    index ∈ work.failing ↔ work.fails index = true := by
  unfold failing
  rw [List.mem_filter, List.mem_map]
  constructor
  · rintro ⟨_, fails⟩
    exact fails
  · intro fails
    exact ⟨⟨index.toNat, List.mem_range.mpr (lt_regions_of_fails fails), UInt32.ofNat_toNat⟩, fails⟩

theorem pairwise_failing (work : Workload) : work.failing.Pairwise (· < ·) :=
  (Heap.pairwise_positions work.regions).filter work.fails

theorem nodup_failing (work : Workload) : work.failing.Nodup := by
  refine work.pairwise_failing.imp ?_
  intro a b less same
  rw [same] at less
  exact UInt32.lt_irrefl b less

theorem length_failing_le (work : Workload) : work.failing.length ≤ work.regions.toNat := by
  have filtered := List.length_filter_le work.fails ((List.range work.regions.toNat).map UInt32.ofNat)
  rw [List.length_map, List.length_range] at filtered
  exact filtered

/-- A journal that lists what the lists have in range lists the failing regions in some order. -/
theorem perm_failing {work : Workload} {entries : List UInt32} (nodup : entries.Nodup)
    (member : ∀ index, index ∈ entries ↔
      ∃ indices ∈ work.records, index ∈ courseWithin work.regions.toNat indices) :
    entries.Perm work.failing := by
  rw [List.perm_ext_iff_of_nodup nodup work.nodup_failing]
  intro index
  rw [member, mem_failing, fails_iff]

end Workload

/-! ## Ascending order -/

theorem Cycle.ascending_eq {listing sorted : List UInt32} (perm : listing.Perm sorted)
    (ordered : sorted.Pairwise (· < ·)) : Cycle.ascending listing = sorted := by
  have arranged : (Cycle.ascending listing).Pairwise fun a b => decide (a ≤ b) = true := by
    refine List.pairwise_mergeSort ?_ ?_ listing
    · intro a b c first second
      exact decide_eq_true (UInt32.le_trans (of_decide_eq_true first) (of_decide_eq_true second))
    · intro a b
      rw [Bool.or_eq_true, decide_eq_true_eq, decide_eq_true_eq]
      exact UInt32.le_total a b
  refine List.Perm.eq_of_pairwise ?_ arranged
    (ordered.imp fun less => decide_eq_true (UInt32.le_of_lt less))
    ((List.mergeSort_perm listing _).trans perm)
  intro a b _ _ first second
  exact UInt32.le_antisymm (of_decide_eq_true first) (of_decide_eq_true second)

/-- The claimed indices are the entries in ascending order. -/
theorem members_eq {s : RegionSet} {listing sorted : List UInt32} (enumerated : s.Enumerates listing)
    (wellFormed : s.WellFormed) (narrow : s.capacity ≤ UInt32.size) (perm : listing.Perm sorted)
    (ordered : sorted.Pairwise (· < ·)) : s.members = sorted.map UInt32.toNat := by
  have same : s.members.Perm (sorted.map UInt32.toNat) :=
    (enumerated.perm_members wellFormed narrow).symm.trans (perm.map UInt32.toNat)
  have climbing : (sorted.map UInt32.toNat).Pairwise (· < ·) :=
    List.pairwise_map.mpr (ordered.imp UInt32.lt_iff_toNat_lt.mp)
  refine same.eq_of_pairwise ?_ (List.pairwise_lt_range.filter _) climbing
  intro i j _ _ less more
  exact absurd less (Nat.lt_asymm more)

/-! ## Notes -/

/-- The regions of a new heap that have notes once every failing region has been told so often. -/
theorem Workload.noted_filter (work : Workload) (times : Nat) :
    ((List.range work.regions.toNat).map fun position =>
        (Region.fresh (UInt32.ofNat position)).noted
          (if work.fails (UInt32.ofNat position) then times else 0)).filter
        (fun region => region.notes != 0) =
      if UInt64.ofNat times = 0 then []
      else work.failing.map fun index => ⟨index, true, UInt64.ofNat times⟩ := by
  have count (position : Nat) : ((Region.fresh (UInt32.ofNat position)).noted
      (if work.fails (UInt32.ofNat position) then times else 0)).notes =
        if work.fails (UInt32.ofNat position) then UInt64.ofNat times else 0 := by
    cases work.fails (UInt32.ofNat position) <;> simp [Region.fresh, Region.noted]
  rw [List.filter_map]
  split
  · next zero =>
    rw [List.map_eq_nil_iff, List.filter_eq_nil_iff]
    intro position _
    simp [count, zero]
  · next counted =>
    have positive : 0 < times := by
      rcases Nat.eq_zero_or_pos times with rfl | positive
      · exact absurd rfl counted
      · exact positive
    rw [failing, List.filter_map, List.map_map]
    have chosen : (List.range work.regions.toNat).filter
        ((fun region => region.notes != 0) ∘ fun position =>
          (Region.fresh (UInt32.ofNat position)).noted
            (if work.fails (UInt32.ofNat position) then times else 0)) =
        (List.range work.regions.toNat).filter (work.fails ∘ UInt32.ofNat) := by
      apply List.filter_congr
      intro position _
      rw [Function.comp_apply, Function.comp_apply, count]
      cases work.fails (UInt32.ofNat position) <;> simp [counted]
    rw [chosen]
    apply List.map_congr_left
    intro position member
    have fails : work.fails (UInt32.ofNat position) = true := (List.mem_filter.mp member).2
    simp [fails, Region.fresh, Region.noted, positive]

end Evacuation.Race
