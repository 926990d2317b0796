import Mathlib.Data.Finset.Card
import Evacuation.Proofs.Recorder.History
import Evacuation.Proofs.Session.Steps

/-!
# One pause of a session

A pause is begun, some regions are recorded one after another, and the pause is sealed.  Of each
region below the capacity the first recording is answered with `true` and every later one with
`false`; recordings beyond the capacity fault and change nothing.  So the listing is the regions below
the capacity in the order of their first recordings, whatever the recorder went through before.

`Session.Midway` is what holds between two recordings, and one recording carries it on.
-/

namespace Evacuation

/-- The regions below a capacity, each where it comes first. -/
def firstsBelow (capacity : Nat) (indices : List UInt32) : List UInt32 :=
  (indices.filter (·.toNat < capacity)).eraseDups

section FirstsBelow

variable {capacity : Nat} {indices : List UInt32} {index : UInt32}

theorem mem_firstsBelow :
    index ∈ firstsBelow capacity indices ↔ index ∈ indices ∧ index.toNat < capacity := by
  simp [firstsBelow, List.mem_eraseDups]

theorem firstsBelow_concat_of_le (beyond : capacity ≤ index.toNat) :
    firstsBelow capacity (indices ++ [index]) = firstsBelow capacity indices := by
  simp [firstsBelow, List.filter_append, Nat.not_lt.mpr beyond]

theorem firstsBelow_concat_of_mem (seen : index ∈ indices) :
    firstsBelow capacity (indices ++ [index]) = firstsBelow capacity indices := by
  by_cases inside : index.toNat < capacity
  · simp [firstsBelow, List.filter_append, inside, List.eraseDups_append, List.removeAll, seen]
  · exact firstsBelow_concat_of_le (Nat.le_of_not_lt inside)

theorem firstsBelow_concat_of_not_mem (inside : index.toNat < capacity) (unseen : index ∉ indices) :
    firstsBelow capacity (indices ++ [index]) = firstsBelow capacity indices ++ [index] := by
  simp [firstsBelow, List.filter_append, inside, List.eraseDups_append, List.removeAll, unseen,
    List.eraseDups_cons]

theorem nodup_firstsBelow (capacity : Nat) (indices : List UInt32) :
    (firstsBelow capacity indices).Nodup := by
  induction indices using List.reverseRecOn with
  | nil => exact List.nodup_nil
  | append_singleton indices index ih =>
      by_cases seen : index ∈ indices
      · rwa [firstsBelow_concat_of_mem seen]
      · by_cases inside : index.toNat < capacity
        · rw [firstsBelow_concat_of_not_mem inside seen]
          exact List.nodup_append.mpr ⟨ih, List.nodup_singleton index, by grind [mem_firstsBelow]⟩
        · rwa [firstsBelow_concat_of_le (Nat.le_of_not_lt inside)]

/-- There are as many firsts as distinct regions below the capacity. -/
theorem length_firstsBelow (capacity : Nat) (indices : List UInt32) :
    (firstsBelow capacity indices).length =
      (indices.filter (·.toNat < capacity)).toFinset.card := by
  rw [← List.toFinset_card_of_nodup (nodup_firstsBelow capacity indices)]
  congr 1
  ext index
  simp [mem_firstsBelow]

end FirstsBelow

/-- What recording a region comes to after some others were recorded: `true` for the first recording
of a region, `false` for a later one, and a fault beyond the capacity. -/
def recordVerdict (capacity : Nat) (told : List UInt32) (index : UInt32) : Verdict :=
  if index.toNat < capacity then .answered (.flag (decide (index ∉ told)))
  else .faulted (.regionOutOfRange index.toNat capacity)

namespace Session

variable {τ : Type} [Layout τ] {n m : Nat}

/-- The recorder in use `capacity` regions wide, in the middle of a pause in which some regions were
recorded. -/
structure Midway (capacity : Nat) (told : List UInt32) (s : Session τ n m) : Prop where
  linked : s.recorder.Linked
  recording : s.recorder.phase = .recording
  capacity_eq : s.recorder.failed.capacity = capacity
  entries_eq : s.recorder.journal.entries = firstsBelow capacity told
  resolves : ∀ index : UInt32, index.toNat < capacity → s.table.Resolves index

variable {p : Profile} {capture : Level} {capacity : Nat} {told : List UInt32} {s : Session τ n m}

namespace Midway

theorem bit_iff (h : s.Midway capacity told) (index : UInt32) :
    s.recorder.failed.bit index.toNat = true ↔ index ∈ told ∧ index.toNat < capacity := by
  rw [← h.linked.listed.mem_iff, h.entries_eq, mem_firstsBelow]

theorem begun (capture : Level) {regions : UInt32} (linked : s.recorder.Linked)
    (accepted : (s.recorder.beginPause p s.table.maxRegions regions s.totals).result = .ok ())
    (resolves : ∀ index : UInt32,
      index.toNat < max s.recorder.failed.capacity regions.toNat → s.table.Resolves index) :
    (s.step p capture (.beginPause regions)).2.Midway
        (max s.recorder.failed.capacity regions.toNat) [] ∧
      (s.step p capture (.beginPause regions)).2.recorder.pauseId = s.totals.pauses + 1 := by
  have now : (s.step p capture (.beginPause regions)).2.recorder =
      (s.recorder.beginPause p s.table.maxRegions regions s.totals).state.1 :=
    s.recorder_withRecorder _
  have opened := linked.opened accepted
  have state := Recorder.beginPause_of_ok accepted
  refine ⟨⟨?_, ?_, ?_, ?_, resolves⟩, ?_⟩
  · rw [now]
    exact opened.toBlank.linked
  · rw [now]
    exact opened.recording
  · rw [now, state]
    exact linked.capacity_prepare regions
  · rw [now]
    exact opened.toBlank.entries_eq_nil
  · rw [now, state]

/-- A recording that changes nothing, and of whose region nothing new is to be listed. -/
theorem unchanged (h : s.Midway capacity told) {now : Session τ n m} {more : List UInt32}
    (recorder : now.recorder = s.recorder) (table : now.table = s.table)
    (listed : firstsBelow capacity more = firstsBelow capacity told) : now.Midway capacity more := by
  refine ⟨?_, ?_, ?_, ?_, ?_⟩
  · rw [recorder]
    exact h.linked
  · rw [recorder]
    exact h.recording
  · rw [recorder]
    exact h.capacity_eq
  · rw [recorder, listed]
    exact h.entries_eq
  · rw [table]
    exact h.resolves

/-- A recording that lists its region. -/
theorem enlisted (h : s.Midway capacity told) {now : Session τ n m} {index : UInt32}
    (inside : index.toNat < capacity) (unseen : index ∉ told)
    (recorder : now.recorder = s.recorder.enlist index) (table : now.table = (s.table.note index).2) :
    now.Midway capacity (told ++ [index]) := by
  have free : s.recorder.failed.bit index.toNat = false := by
    rw [Bool.eq_false_iff, ne_eq, h.bit_iff]
    exact fun taken => unseen taken.1
  have room : index.toNat < s.recorder.failed.capacity := h.capacity_eq ▸ inside
  refine ⟨?_, ?_, ?_, ?_, ?_⟩
  · rw [recorder]
    exact h.linked.enlist room free
  · rw [recorder]
    exact h.recording
  · rw [recorder]
    exact h.capacity_eq
  · rw [recorder, firstsBelow_concat_of_not_mem inside unseen, ← h.entries_eq]
    exact h.linked.entries_enlist room free
  · rw [table]
    exact fun other below => Table.resolves_note (h.resolves other below) index

/-- One more recording: its answer, and the pause going on. -/
theorem record (h : s.Midway capacity told) (p : Profile) (capture : Level) (index : UInt32) :
    (s.step p capture (.record index)).1.verdict = recordVerdict capacity told index ∧
      (s.step p capture (.record index)).2.Midway capacity (told ++ [index]) ∧
      (s.step p capture (.record index)).2.recorder.pauseId = s.recorder.pauseId := by
  have verdict : (s.step p capture (.record index)).1.verdict =
      .ofResult ((s.recorder.record p s.table index).result.map .flag) := rfl
  have recorder : (s.step p capture (.record index)).2.recorder =
      (s.recorder.record p s.table index).state.1 := s.recorder_withRecorder _
  have table : (s.step p capture (.record index)).2.table =
      (s.recorder.record p s.table index).state.2 := Session.table_withTable _ _
  obtain ⟨refused, _⟩ | ⟨beyond, same⟩ | ⟨taken, same⟩ | ⟨inside, free, same⟩ :=
    h.linked.record p s.table index
  · simp [h.recording] at refused
  · rw [h.capacity_eq] at beyond same
    rw [same] at verdict recorder table
    refine ⟨?_, h.unchanged recorder table (firstsBelow_concat_of_le beyond), ?_⟩
    · rw [verdict, recordVerdict, if_neg (Nat.not_lt.mpr beyond)]
      rfl
    · rw [recorder]
      rfl
  · obtain ⟨seen, inside⟩ := (h.bit_iff index).mp taken
    rw [same] at verdict recorder table
    refine ⟨?_, h.unchanged recorder table (firstsBelow_concat_of_mem seen), ?_⟩
    · rw [verdict, recordVerdict, if_pos inside]
      simp [seen, Outcome.done, Except.map, Verdict.ofResult]
    · rw [recorder]
      rfl
  · rw [h.capacity_eq] at inside
    have unseen : index ∉ told := by
      intro seen
      rw [(h.bit_iff index).mpr ⟨seen, inside⟩] at free
      cases free
    rw [same] at verdict recorder table
    refine ⟨?_, h.enlisted inside unseen recorder table, ?_⟩
    · rw [verdict, Table.note_of_resolves (h.resolves index inside), recordVerdict, if_pos inside]
      simp [unseen, Except.map, Verdict.ofResult]
    · rw [recorder]
      rfl

/-- A series of recordings: their answers, and the pause going on. -/
theorem records (h : s.Midway capacity told) (p : Profile) (capture : Level) (indices : List UInt32) :
    (s.run p capture (indices.map .record)).1.map Reply.verdict =
        (indices.mapIdx fun j index => recordVerdict capacity (told ++ indices.take j) index) ∧
      (s.run p capture (indices.map .record)).2.Midway capacity (told ++ indices) ∧
      (s.run p capture (indices.map .record)).2.recorder.pauseId = s.recorder.pauseId := by
  induction indices generalizing told s with
  | nil => exact ⟨rfl, by simpa [run] using h, rfl⟩
  | cons index rest ih =>
      obtain ⟨verdict, midway, pauseId⟩ := h.record p capture index
      obtain ⟨verdicts, later, kept⟩ := ih midway
      refine ⟨?_, ?_, ?_⟩
      · simp only [List.map_cons, run, verdict, verdicts, List.mapIdx_cons, List.take_zero,
          List.append_nil, List.take_succ_cons, List.append_assoc, List.singleton_append]
      · simpa [run] using later
      · simpa [run] using kept.trans pauseId

end Midway

/-- What a pause over a list of regions shows: the verdicts on beginning it, on each recording and on
sealing it, and what the recorder tells of it afterwards. -/
structure Reports (p : Profile) (capacity : Nat) (indices : List UInt32) (summary : Summary)
    (run : List Reply × Session τ n m) : Prop where
  verdicts : run.1.map Reply.verdict =
    .answered .nothing ::
      (indices.mapIdx (fun j index => recordVerdict capacity (indices.take j) index) ++
        [.answered (.summary summary)])
  listing : run.2.recorder.listing p = .ok (firstsBelow capacity indices)
  contains : ∀ index : UInt32, run.2.recorder.contains p index =
    if index.toNat < capacity then .ok (decide (index ∈ indices))
    else .error (.regionOutOfRange index.toNat capacity)
  count : run.2.recorder.count p = .ok (indices.filter (·.toNat < capacity)).toFinset.card
  regionsFailed : summary.regionsFailed.toNat =
    (indices.filter (·.toNat < capacity)).toFinset.card
  evacuationFailed : summary.evacuationFailed = true ↔
    (indices.filter (·.toNat < capacity)).toFinset.card ≠ 0
  maxRegions : summary.maxRegions.toNat = capacity

namespace Midway

theorem length_eq (h : s.Midway capacity told) :
    s.recorder.journal.length = (told.filter (·.toNat < capacity)).toFinset.card := by
  rw [← length_firstsBelow, ← h.entries_eq, h.linked.length_entries]

/-- Sealing the pause: its summary, and what the recorder tells afterwards. -/
theorem sealed (h : s.Midway capacity told) (nanos : UInt64) {replies : List Reply}
    (replied : replies.map Reply.verdict =
      .answered .nothing :: told.mapIdx fun j index => recordVerdict capacity (told.take j) index) :
    Reports p capacity told
      ⟨s.recorder.pauseId, s.recorder.journal.cursor, s.recorder.maxRegions, nanos⟩
      (replies ++ [(s.step p capture (.sealPause nanos)).1],
        (s.step p capture (.sealPause nanos)).2) := by
  obtain ⟨result, state⟩ := Recorder.sealPause_of_recording p nanos s.totals h.recording
  have verdict := verdict_sealPause p capture s nanos
  have recorder : (s.step p capture (.sealPause nanos)).2.recorder =
      { s.recorder with phase := .sealed } :=
    (s.recorder_withRecorder _).trans (congrArg Prod.fst state)
  have linked : (s.step p capture (.sealPause nanos)).2.recorder.Linked := by
    rw [recorder]
    exact h.linked.congr rfl rfl
  have readable : (s.step p capture (.sealPause nanos)).2.recorder.readable p = .ok () := by
    simp [recorder, Recorder.readable]
  have coherent := linked.coherent (τ := τ) p
  have length : s.recorder.journal.cursor.toNat =
      (told.filter (·.toNat < capacity)).toFinset.card := h.length_eq
  refine ⟨?_, ?_, ?_, ?_, length, ?_, ?_⟩
  · rw [List.map_append, replied, List.map_singleton, verdict, result]
    rfl
  · rw [coherent.listing_eq readable, recorder]
    exact congrArg Except.ok h.entries_eq
  · intro index
    rw [coherent.contains_eq readable, recorder]
    simp only [h.capacity_eq, h.entries_eq, mem_firstsBelow]
    split
    · next inside => simp [inside]
    · rfl
  · rw [coherent.count_eq readable, linked.length_entries, recorder]
    exact congrArg Except.ok length
  · simp only [Summary.evacuationFailed, decide_eq_true_eq, UInt64.lt_iff_toNat_lt, length]
    exact Nat.pos_iff_ne_zero
  · exact h.linked.toNat_maxRegions.trans h.capacity_eq

end Midway

/-- After any history of calls on the recorder, a pause that is begun over any number of regions shows
the list of regions recorded in it and nothing else, as long as the table resolves every index below
the capacity. -/
theorem reports_run {σ : Type} (p : Profile) (capture : Level) (size : UInt32)
    (calls : List (Call τ σ)) (s : Session τ n m)
    (reached : s.recorder = (Recorder.ofSize size).afterCalls p calls) (regions : UInt32)
    (accepted : (s.recorder.beginPause p s.table.maxRegions regions s.totals).result = .ok ())
    (resolves : ∀ index : UInt32,
      index.toNat < max s.recorder.maxRegions.toNat regions.toNat → s.table.Resolves index)
    (indices : List UInt32) (nanos : UInt64) :
    ∃ summary : Summary,
      Reports p (max s.recorder.maxRegions.toNat regions.toNat) indices summary
          (s.run p capture (.beginPause regions :: (indices.map .record ++ [.sealPause nanos]))) ∧
        summary.pauseId = s.totals.pauses + 1 ∧ summary.nanos = nanos := by
  have linked : s.recorder.Linked := by
    rw [reached]
    exact (Recorder.blank_ofSize size).linked.afterCalls p calls
  rw [linked.toNat_maxRegions] at resolves ⊢
  obtain ⟨begun, number⟩ := Midway.begun capture linked accepted resolves
  obtain ⟨verdicts, recorded, kept⟩ := begun.records p capture indices
  have first : (s.step p capture (.beginPause regions)).1.verdict = .answered .nothing := by
    change Verdict.ofResult (Except.map (fun _ => Answer.nothing) _) = _
    rw [accepted]
    rfl
  refine ⟨?summary, ?reports, ?number, ?nanos⟩
  case reports =>
    simp only [run, run_append]
    refine recorded.sealed nanos (?_ : (_ :: _ : List Reply).map Reply.verdict = _)
    rw [List.map_cons, first, verdicts]
    rfl
  case number => exact kept.trans number
  case nanos => rfl

/-- A recorder that listed two of three regions in an earlier pause, and is then begun over five. -/
theorem reports_run_reused :
    let calls : List (Call Plan Unit) :=
      [.beginPause 3 3 .zero, .record (.ofSize 3) 2, .record (.ofSize 3) 0,
        .sealPause 7 ⟨1, 0, 0⟩, .reset]
    let s : Session Plan 1 1 :=
      { start #v[.ofSize 5] (fun _ => 0) 0 with
        recorders := #v[(Recorder.ofSize 3).afterCalls .debug calls], totals := ⟨1, 1, 2⟩ }
    let indices : List UInt32 := [4, 9, 1, 4, 1]
    firstsBelow 5 indices = [4, 1] ∧ ∃ summary : Summary,
      Reports .debug 5 indices summary
          (s.run .debug .info (.beginPause 5 :: (indices.map .record ++ [.sealPause 30]))) ∧
        summary.pauseId = 2 ∧ summary.nanos = 30 := by
  intro calls s indices
  have capacity : max s.recorder.maxRegions.toNat (5 : UInt32).toNat = 5 := by decide +kernel
  have accepted : (s.recorder.beginPause .debug s.table.maxRegions 5 s.totals).result = .ok () := rfl
  have resolves (index : UInt32)
      (inside : index.toNat < max s.recorder.maxRegions.toNat (5 : UInt32).toNat) :
      s.table.Resolves index := Table.resolves_ofSize (Nat.lt_of_lt_of_eq inside capacity)
  refine ⟨by decide +kernel, ?_⟩
  rw [← capacity]
  exact reports_run .debug .info 3 calls s rfl 5 accepted resolves indices 30

end Session

end Evacuation
