import Evacuation.Proofs.Race.Election
import Evacuation.Proofs.Race.Failing
import Evacuation.Proofs.Race.Progress
import Evacuation.Proofs.Race.Round

/-!
# Pauses under every interleaving

A cycle of pauses shows the same whatever its schedulers choose, as long as every thread comes to its
end.  `Rested` is what holds between two pauses, `Recorded` what the race of the recording threads
leaves behind within a pause.
-/

namespace Evacuation

namespace Recorder

/-- A pause can be begun when none is being recorded, over what the table offers, while the pauses can
be counted. -/
theorem beginPause_of_calm {profile : Profile} {offered requested : UInt32} {r : Recorder}
    {totals : Totals} (calm : r.phase ≠ .recording) (offers : requested ≤ offered)
    (counts : profile.checks = true → totals.pauses + 1 ≠ 0) :
    (r.beginPause profile offered requested totals).result = .ok () ∧
      (r.beginPause profile offered requested totals).state =
        ({ r.prepare requested with
            phase := .recording, pauseId := totals.pauses + 1, span := some (totals.pauses + 1) },
          { totals with pauses := totals.pauses + 1 }) := by
  have quiet : (profile.checks && r.phase == .recording) = false := by simp [calm]
  have within : (profile.checks && decide (offered < requested)) = false := by
    simp [UInt32.not_lt.mpr offers]
  have counted : (profile.checks && totals.pauses + 1 == 0) = false := by
    cases checks : profile.checks with
    | false => rfl
    | true => simpa using counts checks
  unfold beginPause Totals.openPause
  rw [quiet, within]
  simp only [counted]
  exact ⟨rfl, rfl⟩

end Recorder

namespace Race

/-! ## The parts of a pause -/

namespace Cycle

variable {τ : Type} [Layout τ]

def begun (profile : Profile) (work : Workload) (c : Cycle τ) : Outcome (Recorder × Totals) Unit :=
  c.recorder.beginPause profile c.table.maxRegions work.regions c.totals

def recorded (profile : Profile) (work : Workload) (scheduler : Scheduler τ) (c : Cycle τ) :
    Recording τ :=
  let race := Recording.start (c.begun profile work).state.1 c.table work.records
  race.run profile (scheduler.recording race)

def closed (profile : Profile) (work : Workload) (scheduler : Scheduler τ) (c : Cycle τ) :
    Outcome (Recorder × Totals) Summary :=
  (c.recorded profile work scheduler).recorder.sealPause profile 0 (c.begun profile work).state.2

def walked (profile : Profile) (work : Workload) (scheduler : Scheduler τ) (c : Cycle τ) :
    Walking τ :=
  let race := Walking.start profile (c.closed profile work scheduler).state.1
    (c.recorded profile work scheduler).table c.board
    ((List.range work.workers.toNat).map UInt64.ofNat)
  race.run (scheduler.walking race)

theorem pause_eq (profile : Profile) (work : Workload) (scheduler : Scheduler τ) (c : Cycle τ) :
    c.pause profile work scheduler =
      ({ wins := (c.recorded profile work scheduler).wins
         stops := (c.recorded profile work scheduler).writers.map Writer.stop
         sealed := (c.closed profile work scheduler).result
         listed := ascending (c.closed profile work scheduler).state.1.journal.entries
         claimed := (c.closed profile work scheduler).state.1.failed.members
         visited := ascending (c.walked profile work scheduler).visited
         noted := (c.recorded profile work scheduler).table.heap.regions.toList.filter
          fun region => region.notes != 0 },
       ⟨(c.closed profile work scheduler).state.1.reset.1, (c.recorded profile work scheduler).table,
         (c.walked profile work scheduler).board.release,
         (c.closed profile work scheduler).state.2⟩) := rfl

/-- The scheduler lets every thread of the next pause come to its end. -/
structure Joins (profile : Profile) (work : Workload) (scheduler : Scheduler τ) (c : Cycle τ) :
    Prop where
  recording : (c.recorded profile work scheduler).finished = true
  walking : (c.walked profile work scheduler).finished = true

/-- Running in turn lets every thread of a pause come to its end. -/
theorem joins_inTurn (profile : Profile) (work : Workload) (c : Cycle τ) :
    c.Joins profile work (.inTurn τ) where
  recording := Recording.finished_inTurn profile _ _ _ []
  walking := Walking.finished_inTurn profile _ _ _ _

end Cycle

/-! ## Between two pauses -/

/-- The heap of a workload once every region that fails has been told so often. -/
structure Workload.Tells (work : Workload) (times : Nat) (table : Table Plan) : Prop where
  layout : table.layout = .fixed work.regions
  regions : ∀ position, table.heap.regions[position]? =
    ((Heap.ofSize work.regions).regions[position]?).map
      (Region.noted · (if work.fails (UInt32.ofNat position) then times else 0))

/-- A cycle between two pauses, so many pauses after the first totals. -/
structure Rested (work : Workload) (first : Totals) (pauses : Nat) (c : Cycle Plan) : Prop where
  blank : c.recorder.Blank
  capacity : c.recorder.failed.capacity = work.regions.toNat
  idle : c.recorder.phase = .idle
  tells : work.Tells pauses c.table
  workers : c.board.workers = work.workers
  size : c.board.claims.size = work.regions.toNat
  free : ∀ j, c.board.claimed j = false
  totals : c.totals = work.totals first pauses

theorem rested_start {work : Workload} {c : Cycle Plan}
    (started : Cycle.start work = .ok { c with totals := .zero }) : Rested work c.totals 0 c := by
  obtain ⟨recorder, table, board, totals⟩ := c
  unfold Cycle.start ClaimBoard.create at started
  split at started
  · next shared =>
    obtain ⟨rfl, rfl, rfl, _⟩ := (Cycle.mk.injEq ..).mp (Except.ok.inj started)
    refine ⟨Recorder.blank_ofSize work.regions, rfl, rfl, ⟨rfl, ?_⟩, rfl, Array.size_replicate, ?_, ?_⟩
    · intro position
      simp [Table.ofSize, Region.noted_zero]
    · intro j
      by_cases inside : j < work.regions.toNat <;> simp [ClaimBoard.claimed, inside]
    · simp [Workload.totals]
  · cases started

/-! ## Telling the regions of a workload -/

namespace Workload.Tells

variable {work : Workload} {times : Nat} {table : Table Plan}

theorem resolves (h : work.Tells times table) {index : UInt32}
    (inside : index.toNat < work.regions.toNat) : table.Resolves index := by
  refine Table.resolves_iff.mpr ⟨index, ?_, ?_⟩
  · rw [h.layout]
    rfl
  · have found := h.regions index.toNat
    have bound : index.toNat < (Heap.ofSize work.regions).regions.size := by
      rw [← Heap.size, Heap.size_ofSize]
      exact inside
    rw [Array.getElem?_eq_getElem bound] at found
    exact (Array.getElem?_eq_some_iff.mp found).1

theorem maxRegions (h : work.Tells times table) : table.maxRegions = work.regions := by
  rw [Table.maxRegions, h.layout]
  rfl

/-- Telling every failing region once more. -/
theorem tell (h : work.Tells times table) {entries : List UInt32} (perm : entries.Perm work.failing)
    {told : Table Plan} (layout : told.layout = table.layout)
    (regions : ∀ position, told.heap.regions[position]? =
      (table.heap.regions[position]?).map (Region.noted · (entries.countP (table.places position)))) :
    work.Tells (times + 1) told := by
  refine ⟨layout.trans h.layout, ?_⟩
  intro position
  rw [regions, h.regions, Option.map_map]
  by_cases inside : position < work.regions.toNat
  · have narrow : position < UInt32.size := Nat.lt_trans inside work.regions.toNat_lt
    have placed : table.places position = fun index => index == UInt32.ofNat position := by
      funext index
      unfold Table.places
      rw [h.layout, Bool.eq_iff_iff, beq_iff_eq]
      change (index.toNat == position) = true ↔ _
      rw [beq_iff_eq, ← UInt32.toNat_inj, UInt32.toNat_ofNat_of_lt' narrow]
    have once : entries.countP (table.places position) =
        if work.fails (UInt32.ofNat position) then 1 else 0 := by
      rw [placed, ← List.count_eq_countP, perm.count_eq, work.nodup_failing.count]
      simp only [mem_failing]
    rw [once]
    congr 1
    funext region
    cases work.fails (UInt32.ofNat position) <;> simp [Region.noted_noted]
  · have none : (Heap.ofSize work.regions).regions[position]? = none := by
      rw [Array.getElem?_eq_none_iff, ← Heap.size, Heap.size_ofSize]
      exact Nat.le_of_not_lt inside
    rw [none]
    rfl

/-- The regions that have notes are the failing ones, each with the count. -/
theorem noted (h : work.Tells times table) :
    table.heap.regions.toList.filter (fun region => region.notes != 0) =
      if UInt64.ofNat times = 0 then []
      else work.failing.map fun index => ⟨index, true, UInt64.ofNat times⟩ := by
  have listed : table.heap.regions.toList = (List.range work.regions.toNat).map fun position =>
      (Region.fresh (UInt32.ofNat position)).noted
        (if work.fails (UInt32.ofNat position) then times else 0) := by
    apply List.ext_getElem?
    intro position
    rw [Array.getElem?_toList, h.regions, List.getElem?_map, Heap.ofSize, Array.getElem?_ofFn]
    by_cases inside : position < work.regions.toNat
    · rw [dif_pos inside, List.getElem?_range inside]
      rfl
    · rw [dif_neg inside, List.getElem?_eq_none (by simpa using inside)]
      rfl
  rw [listed, work.noted_filter]

end Workload.Tells

/-! ## The recording threads of a pause -/

theorem Recording.wins_eq {τ : Type} (race : Recording τ) : race.wins = race.winners.length := by
  unfold Recording.wins Recording.winners
  rw [List.countP_flatMap, List.length_flatMap]
  congr 1
  apply List.map_congr_left
  intro w _
  rw [Writer.winners, List.length_map, ← List.countP_eq_length_filter]
  rfl

structure Recorded (work : Workload) (first : Totals) (pauses : Nat) (race : Recording Plan) :
    Prop where
  linked : race.recorder.Linked
  recording : race.recorder.phase = .recording
  capacity : race.recorder.failed.capacity = work.regions.toNat
  pauseId : race.recorder.pauseId = first.pauses + UInt64.ofNat pauses
  entries : race.recorder.journal.entries.Perm work.failing
  wins : race.wins = work.failing.length
  stops : race.writers.map Writer.stop = work.records.map (faultBeyond work.regions.toNat)
  tells : work.Tells pauses race.table

namespace Rested

variable {work : Workload} {first : Totals} {pauses : Nat} {c : Cycle Plan}

theorem begun (h : Rested work first pauses c) {profile : Profile}
    (counts : profile.checks = true → first.pauses.toNat + (pauses + 1) < UInt64.size) :
    (c.begun profile work).result = .ok () ∧ (c.begun profile work).state =
      ({ c.recorder.prepare work.regions with
          phase := .recording
          pauseId := first.pauses + UInt64.ofNat (pauses + 1)
          span := some (first.pauses + UInt64.ofNat (pauses + 1)) },
        { c.totals with pauses := first.pauses + UInt64.ofNat (pauses + 1) }) := by
  have next : c.totals.pauses + 1 = first.pauses + UInt64.ofNat (pauses + 1) := by
    rw [h.totals, UInt64.ofNat_add, ← UInt64.add_assoc]
    rfl
  have offers : work.regions ≤ c.table.maxRegions := by
    rw [h.tells.maxRegions]
    exact UInt32.le_refl work.regions
  have calm : c.recorder.phase ≠ .recording := by
    rw [h.idle]
    nofun
  rw [← next]
  refine Recorder.beginPause_of_calm calm offers ?_
  intro checks
  have bound := counts checks
  rw [next, ← UInt64.toNat_inj.ne, UInt64.toNat_add, UInt64.toNat_ofNat_of_lt' (by omega),
    Nat.mod_eq_of_lt bound]
  exact Nat.succ_ne_zero _

theorem recorded (h : Rested work first pauses c) {profile : Profile}
    (counts : profile.checks = true → first.pauses.toNat + (pauses + 1) < UInt64.size)
    {scheduler : Scheduler Plan} (finished : (c.recorded profile work scheduler).finished = true) :
    Recorded work first (pauses + 1) (c.recorded profile work scheduler) := by
  obtain ⟨begun, state⟩ := h.begun counts
  have opened : (c.begun profile work).state.1.Opened := h.blank.linked.opened begun
  have capacity : (c.begun profile work).state.1.failed.capacity = work.regions.toNat := by
    rw [state]
    change (c.recorder.prepare work.regions).failed.capacity = _
    rw [h.blank.capacity_prepare, h.capacity, Nat.max_self]
  have pauseId : (c.begun profile work).state.1.pauseId =
      first.pauses + UInt64.ofNat (pauses + 1) := by rw [state]
  have resolves : ∀ index : UInt32, index.toNat < (c.begun profile work).state.1.failed.capacity →
      c.table.Resolves index := by
    intro index inside
    rw [capacity] at inside
    exact h.tells.resolves inside
  obtain ⟨order, _, orderly, leads⟩ :=
    (Recording.orderly_start opened c.table work.records).run profile
      (scheduler.recording (Recording.start (c.begun profile work).state.1 c.table work.records))
  have same : (c.recorded profile work scheduler).recorder.failed.capacity =
      work.regions.toNat := leads.capacity.trans capacity
  have joined : (c.recorded profile work scheduler).Joined c.table work.records := by
    refine orderly.joined ?_ finished
    rw [leads.capacity]
    exact resolves
  have perm : (c.recorded profile work scheduler).recorder.journal.entries.Perm work.failing := by
    refine Workload.perm_failing joined.entries_nodup ?_
    rw [← same]
    exact joined.mem_entries
  refine ⟨orderly.linked finished, orderly.recording, same, leads.pauseId.trans pauseId, perm, ?_, ?_,
    h.tells.tell perm joined.layout joined.told⟩
  · rw [Recording.wins_eq, ← joined.entries_perm.length_eq, perm.length_eq]
  · rw [← same]
    exact joined.stops

end Rested

/-! ## The walking workers of a pause -/

namespace Recorded

variable {work : Workload} {first : Totals} {pauses : Nat} {race : Recording Plan}

theorem cursor_eq (h : Recorded work first pauses race) :
    race.recorder.journal.cursor = UInt64.ofNat work.failing.length := by
  have length : race.recorder.journal.length = work.failing.length := by
    rw [← h.linked.length_entries, h.entries.length_eq]
  rw [← length]
  exact UInt64.ofNat_toNat.symm

theorem maxRegions_eq (h : Recorded work first pauses race) :
    race.recorder.maxRegions = work.regions := by
  rw [Recorder.maxRegions, h.capacity]
  exact UInt32.ofNat_toNat

theorem claimed_eq (h : Recorded work first pauses race) :
    race.recorder.failed.members = work.failing.map UInt32.toNat :=
  members_eq h.linked.listed h.linked.wellFormed (Nat.le_of_lt h.linked.narrow) h.entries
    work.pairwise_failing

/-- The workers of a workload share the listing, and every one of them comes by an offset. -/
theorem walked (h : Recorded work first pauses race) {board : ClaimBoard}
    (workers : board.workers = work.workers) (size : board.claims.size = work.regions.toNat)
    {profile : Profile} (fits : profile.checks = true →
      work.regions.toNat * (work.workers.toNat - 1) < UInt64.size) (schedule : List Nat) :
    ((Walking.start profile { race.recorder with phase := .sealed } race.table board
        ((List.range work.workers.toNat).map UInt64.ofNat)).run schedule).Shares
      race.recorder.journal.entries board := by
  have linked : Recorder.Linked { race.recorder with phase := .sealed } := h.linked.congr rfl rfl
  have readable : Recorder.readable profile { race.recorder with phase := .sealed } = .ok () := by
    simp [Recorder.readable]
  have inside : ∀ index ∈ race.recorder.journal.entries, index.toNat < work.regions.toNat := by
    intro index member
    rw [h.entries.mem_iff, Workload.mem_failing] at member
    exact Workload.lt_regions_of_fails member
  have covered : ∀ index ∈ race.recorder.journal.entries, index.toNat < board.claims.size := by
    rw [size]
    exact inside
  have resolves : ∀ index ∈ race.recorder.journal.entries, race.table.Resolves index :=
    fun index member => h.tells.resolves (inside index member)
  have numbers : ∀ worker ∈ (List.range work.workers.toNat).map UInt64.ofNat,
      worker.toNat < work.workers.toNat := by
    intro worker member
    obtain ⟨i, listed, rfl⟩ := List.mem_map.mp member
    have below := List.mem_range.mp listed
    rw [UInt64.toNat_ofNat_of_lt' (Nat.lt_trans below work.workers.toNat_lt)]
    exact below
  have numbered : ∀ worker ∈ (List.range work.workers.toNat).map UInt64.ofNat,
      worker < board.workers := by
    intro worker member
    rw [workers]
    exact UInt64.lt_iff_toNat_lt.mpr (numbers worker member)
  have products : profile.checks = true →
      ∀ worker ∈ (List.range work.workers.toNat).map UInt64.ofNat,
        race.recorder.journal.entries.length * worker.toNat < UInt64.size := by
    intro checks worker member
    have room : race.recorder.journal.entries.length ≤ work.regions.toNat := by
      rw [h.entries.length_eq]
      exact work.length_failing_le
    have number : worker.toNat ≤ work.workers.toNat - 1 :=
      Nat.le_sub_one_of_lt (numbers worker member)
    exact Nat.lt_of_le_of_lt (Nat.mul_le_mul room number) (fits checks)
  have attended : 0 < work.workers.toNat := by
    rw [← workers]
    exact UInt64.lt_iff_toNat_lt.mp board.workers_pos
  refine ((Walking.rounds_start linked readable covered resolves numbered products).run
    schedule).shares ?_
  rw [← List.length_pos_iff, Walking.length_walkers_run, Walking.length_walkers_start,
    List.length_map, List.length_range]
  exact attended

end Recorded

/-! ## One pause -/

/-- A pause adds its failing regions to the totals. -/
theorem Workload.totals_add (work : Workload) (first : Totals) (pauses : Nat) {summary : Summary}
    (failed : summary.regionsFailed = UInt64.ofNat work.failing.length) :
    Totals.add { work.totals first pauses with
        pauses := first.pauses + UInt64.ofNat (pauses + 1) } summary =
      work.totals first (pauses + 1) := by
  have wide : UInt32.size < UInt64.size := by decide
  have length := work.length_failing_le
  have narrow : work.regions.toNat < UInt32.size := work.regions.toNat_lt
  have count : (UInt64.ofNat work.failing.length).toNat = work.failing.length :=
    UInt64.toNat_ofNat_of_lt' (by omega)
  have any : summary.evacuationFailed = !work.failing.isEmpty := by
    rw [Summary.evacuationFailed, failed, Bool.eq_iff_iff, decide_eq_true_eq, UInt64.lt_iff_toNat_lt,
      count]
    cases work.failing <;> simp
  unfold Totals.add
  rw [any, failed]
  cases listed : work.failing with
  | nil => simp [Workload.totals, listed]
  | cons index rest =>
      simp [Workload.totals, listed, Nat.add_mul, UInt64.add_assoc]

theorem Rested.pause {work : Workload} {first : Totals} {pauses : Nat} {c : Cycle Plan}
    (h : Rested work first pauses c) {profile : Profile} {scheduler : Scheduler Plan}
    (counts : profile.checks = true → first.pauses.toNat + (pauses + 1) < UInt64.size)
    (fits : profile.checks = true →
      work.regions.toNat * (work.workers.toNat - 1) < UInt64.size)
    (joins : c.Joins profile work scheduler) :
    (c.pause profile work scheduler).1 = work.report first (pauses + 1) ∧
      Rested work first (pauses + 1) (c.pause profile work scheduler).2 := by
  obtain ⟨_, begun⟩ := h.begun counts
  have recorded := h.recorded counts joins.recording
  obtain ⟨summary, closed⟩ : (c.closed profile work scheduler).result = _ ∧
      (c.closed profile work scheduler).state = _ :=
    Recorder.sealPause_of_recording _ _ _ recorded.recording
  rw [recorded.pauseId, recorded.cursor_eq, recorded.maxRegions_eq] at summary closed
  have shares : (c.walked profile work scheduler).Shares
      (c.recorded profile work scheduler).recorder.journal.entries c.board := by
    unfold Cycle.walked
    rw [closed]
    exact recorded.walked h.workers h.size fits _
  have visited : (c.walked profile work scheduler).visited.Perm work.failing := by
    refine (shares.visited_perm joins.walking).trans ?_
    rw [List.filter_eq_self.mpr fun index _ => by rw [h.free]; rfl]
    exact recorded.entries
  rw [Cycle.pause_eq, closed]
  refine ⟨?_, ?_⟩
  · unfold Workload.report
    rw [PauseReport.mk.injEq]
    exact ⟨recorded.wins, recorded.stops, summary,
      Cycle.ascending_eq recorded.entries work.pairwise_failing, recorded.claimed_eq,
      Cycle.ascending_eq visited work.pairwise_failing, recorded.tells.noted⟩
  · have cleared := recorded.linked.blank_clear
    refine ⟨⟨⟨cleared.wellFormed, cleared.narrow, cleared.room⟩, cleared.free, cleared.unlisted⟩,
      recorded.capacity, rfl, recorded.tells, ?_, ?_, ClaimBoard.claimed_release _, ?_⟩
    · exact shares.workers.trans h.workers
    · exact Array.size_map.trans (shares.size.trans h.size)
    · rw [begun]
      dsimp only
      rw [h.totals]
      exact work.totals_add first pauses rfl

/-! ## Every interleaving -/

namespace Cycle

theorem rested_run {work : Workload} {first : Totals} {c : Cycle Plan} (h : Rested work first 0 c)
    {profile : Profile} {scheduler : Nat → Scheduler Plan} {pauses : Nat}
    (counts : profile.checks = true → first.pauses.toNat + pauses < UInt64.size)
    (fits : profile.checks = true →
      work.regions.toNat * (work.workers.toNat - 1) < UInt64.size)
    (joins : ∀ pause < pauses,
      (run profile work scheduler c pause).2.Joins profile work (scheduler pause)) :
    (run profile work scheduler c pauses).1 =
        (List.range pauses).map (fun pause => work.report first (pause + 1)) ∧
      Rested work first pauses (run profile work scheduler c pauses).2 := by
  induction pauses with
  | zero => exact ⟨rfl, h⟩
  | succ pauses ih =>
      have counted : profile.checks = true → first.pauses.toNat + pauses < UInt64.size :=
        fun checks => Nat.lt_of_succ_lt (counts checks)
      obtain ⟨reports, rested⟩ := ih counted fun pause early => joins pause (Nat.lt_succ_of_lt early)
      obtain ⟨report, rests⟩ := rested.pause counts fits (joins pauses (Nat.lt_succ_self pauses))
      refine ⟨?_, rests⟩
      rw [List.range_succ, List.map_append, ← reports]
      exact congrArg (_ ++ [·]) report

/-- Whatever the schedulers choose, the pauses of a workload show its failing regions, and the totals,
whatever they were before, add them up. -/
theorem run_reports {work : Workload} {c : Cycle Plan}
    (started : start work = .ok { c with totals := .zero }) {profile : Profile}
    {scheduler : Nat → Scheduler Plan} {pauses : Nat}
    (counts : profile.checks = true → c.totals.pauses.toNat + pauses < UInt64.size)
    (fits : profile.checks = true →
      work.regions.toNat * (work.workers.toNat - 1) < UInt64.size)
    (joins : ∀ pause < pauses,
      (run profile work scheduler c pause).2.Joins profile work (scheduler pause)) :
    (run profile work scheduler c pauses).1 =
        (List.range pauses).map (fun pause => work.report c.totals (pause + 1)) ∧
      (run profile work scheduler c pauses).2.totals = work.totals c.totals pauses := by
  obtain ⟨reports, rested⟩ := rested_run (rested_start started) counts fits joins
  exact ⟨reports, rested.totals⟩

/-- Two pauses over three regions, one with the threads in turn and one with the threads mixed. -/
theorem run_reports_two_pauses :
    let work : Workload := ⟨3, [[2, 0], [0, 7, 1]], 2⟩
    let mixed : Scheduler Plan := ⟨fun _ => [1, 0, 1, 0, 0, 1, 1, 0, 0, 1], fun _ => [1, 0, 1, 0, 1, 0]⟩
    let scheduler (pause : Nat) := if pause = 0 then Scheduler.inTurn Plan else mixed
    let c : Cycle Plan := ⟨.ofSize 3, .ofSize 3, ⟨2, #[false, false, false], by decide⟩, ⟨7, 1, 3⟩⟩
    work.failing = [0, 2] ∧
      (run .debug work scheduler c 2).1 = [work.report ⟨7, 1, 3⟩ 1, work.report ⟨7, 1, 3⟩ 2] ∧
      (run .debug work scheduler c 2).2.totals = ⟨9, 3, 7⟩ := by
  intro work mixed scheduler c
  have started : start work = .ok { c with totals := .zero } := rfl
  have counts : Profile.debug.checks = true → c.totals.pauses.toNat + 2 < UInt64.size :=
    fun _ => by decide
  have fits : Profile.debug.checks = true →
      work.regions.toNat * (work.workers.toNat - 1) < UInt64.size := fun _ => by decide
  have joins : ∀ pause < 2,
      (run .debug work scheduler c pause).2.Joins .debug work (scheduler pause) := by
    intro pause early
    match pause with
    | 0 => exact joins_inTurn .debug work _
    | 1 => exact ⟨by decide +kernel, by decide +kernel⟩
  obtain ⟨reports, totals⟩ := run_reports started counts fits joins
  have sum : work.totals c.totals 2 = ⟨9, 3, 7⟩ := by decide +kernel
  exact ⟨by decide +kernel, reports.trans rfl, totals.trans sum⟩

end Cycle

end Race

end Evacuation
