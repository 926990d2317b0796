import Evacuation.Proofs.Recorder.History
import Evacuation.Proofs.Session.Sizes

/-!
# The room of a recorder

The room of a recorder is kept in three places: the words of the region set, the capacity they are read
under, and the slots of the journal.  They stay in step, and every index is checked against the
capacity and not against the words, which may have bits to spare.

`Session.Act.reports` is what one act makes of the room and says of it, and `Session.capacities_run`
follows the room through a run of growing and shrinking requests.
-/

namespace Evacuation

/-- The largest of some sizes and a first one is known through its upper bounds. -/
theorem foldl_max_le_iff {first bound : UInt32} {sizes : List UInt32} :
    sizes.foldl max first ≤ bound ↔ first ≤ bound ∧ ∀ size ∈ sizes, size ≤ bound := by
  induction sizes generalizing first with
  | nil => simp
  | cons size rest ih =>
      have larger : max first size ≤ bound ↔ first ≤ bound ∧ size ≤ bound := by
        rw [UInt32.le_iff_toNat_le, UInt32.toNat_max, Nat.max_le, UInt32.le_iff_toNat_le,
          UInt32.le_iff_toNat_le]
      rw [List.foldl_cons, ih, larger, List.forall_mem_cons, and_assoc]

/-- The tables in use have other words for a region that they cannot find than a region set has. -/
theorem Table.region_ne_range (table : Table Plan) (index : UInt32) (i capacity : Nat) :
    table.region index ≠ .error (.regionOutOfRange i capacity) := by
  obtain ⟨layout, heap⟩ := table
  have found (place : UInt32) : heap.region place ≠ .error (.regionOutOfRange i capacity) := by
    unfold Heap.region
    split <;> simp
  cases layout with
  | fixed size => exact found index
  | growing committed =>
      by_cases inside : index < committed
      · simpa [region, Layout.place, Plan.place, inside, bind, Except.bind] using found index
      · simp [region, Layout.place, Plan.place, inside, bind, Except.bind]
  | folded size modulus => exact found (index % modulus)

namespace Event

def size? : Event → Option UInt32
  | spanOpened _ maxRegions => some maxRegions
  | recordingSealed _ summary => some summary.maxRegions
  | spanClosed _ | regionRecorded .. | recorderReset _ => none

theorem size?_listings (span : Option UInt64) (slot : UInt64) (regions : List UInt32) :
    (listings span slot regions).filterMap size? = [] := by
  induction regions generalizing slot with
  | nil => rfl
  | cons region rest ih => exact ih (slot + 1)

theorem size?_spanEnd (r : Recorder) : r.spanEnd.filterMap size? = [] := by
  unfold Recorder.spanEnd
  cases r.span <;> rfl

theorem size?_opening (pauseId : UInt64) (maxRegions : UInt32) (r : Recorder) :
    (spanOpened pauseId maxRegions :: r.spanEnd).filterMap size? = [maxRegions] :=
  congrArg (maxRegions :: ·) (size?_spanEnd r)

theorem size?_reset (r : Recorder) : r.reset.2.filterMap size? = [] :=
  size?_spanEnd r

/-- What is captured of some events reports no other sizes than they do. -/
theorem mem_of_captured {p : Profile} {capture : Level} {events : List Event} {size : UInt32}
    (reported : size ∈ (captured p capture events).filterMap size?) :
    size ∈ events.filterMap size? := by
  unfold captured at reported
  split at reported
  · obtain ⟨event, member, reports⟩ := List.mem_filterMap.mp reported
    exact List.mem_filterMap.mpr ⟨event, List.mem_of_mem_filter member, reports⟩
  · cases reported

end Event

namespace Recorder

/-- The parts of a recorder are as large as it says, and so is the range of indices that it takes, where
the phase is no reason to refuse them. -/
structure Fitted (τ : Type) [Layout τ] (p : Profile) (r : Recorder) : Prop where
  narrow : r.failed.capacity < UInt32.size
  capacity_eq : r.failed.capacity = r.maxRegions.toNat
  words_eq : r.failed.words.size = RegionSet.wordsFor r.maxRegions.toNat
  slots_eq : r.journal.slots.size = r.maxRegions.toNat
  contains_fault_iff : (p.checks = true → r.phase ≠ .recording) → ∀ (index : UInt32) (fault : Fault),
    r.contains p index = .error fault ↔
      r.maxRegions ≤ index ∧ fault = .regionOutOfRange index.toNat r.maxRegions.toNat
  record_fault_iff : (p.checks = true → r.phase = .recording) →
    ∀ (table : Table τ) (index : UInt32) (fault : Fault),
      (r.record p table index).result = .error fault ↔
        r.maxRegions ≤ index ∧ fault = .regionOutOfRange index.toNat r.maxRegions.toNat ∨
          index < r.maxRegions ∧ r.failed.bit index.toNat = false ∧
            table.region index = .error fault
  /-- With a table in use, a recording reports a range only if it is out of range. -/
  record_range_iff : (p.checks = true → r.phase = .recording) →
    ∀ (table : Table Plan) (index : UInt32),
      (∃ i capacity, (r.record p table index).result = .error (.regionOutOfRange i capacity)) ↔
        r.maxRegions ≤ index

variable {τ : Type} [Layout τ] {p : Profile} {r : Recorder}

theorem Linked.contains_fault_iff (h : r.Linked) (readable : r.readable p = .ok ()) {index : UInt32}
    {fault : Fault} : r.contains p index = .error fault ↔
      r.maxRegions ≤ index ∧ fault = .regionOutOfRange index.toNat r.maxRegions.toNat := by
  rw [h.contains readable, UInt32.le_iff_toNat_le, h.toNat_maxRegions]
  split
  · next inside => exact ⟨nofun, fun ⟨beyond, _⟩ => absurd inside (Nat.not_lt.mpr beyond)⟩
  · next beyond =>
    rw [Except.error.injEq, eq_comm]
    exact (and_iff_right (Nat.le_of_not_lt beyond)).symm

theorem Linked.record_fault_iff (h : r.Linked)
    (allowed : (p.checks && r.phase != .recording) = false) {table : Table τ} {index : UInt32}
    {fault : Fault} : (r.record p table index).result = .error fault ↔
      r.maxRegions ≤ index ∧ fault = .regionOutOfRange index.toNat r.maxRegions.toNat ∨
        index < r.maxRegions ∧ r.failed.bit index.toNat = false ∧
          table.region index = .error fault := by
  rw [UInt32.le_iff_toNat_le, UInt32.lt_iff_toNat_lt, h.toNat_maxRegions]
  obtain ⟨refused, _⟩ | ⟨beyond, same⟩ | ⟨taken, same⟩ | ⟨inside, free, same⟩ :=
    h.record p table index
  · rw [allowed] at refused
    cases refused
  · rw [same, Outcome.faulted, Except.error.injEq, eq_comm, and_iff_right beyond]
    exact (or_iff_left fun lost => Nat.not_lt.mpr beyond lost.1).symm
  · have inside := h.wellFormed.lt_capacity taken
    have within := Nat.not_le.mpr inside
    simp [same, Outcome.done, taken, within]
  · have within := Nat.not_le.mpr inside
    rw [same, ← Table.note_eq_error_iff]
    cases told : (table.note index).1 <;> simp [inside, within, free, Except.map]

theorem Linked.fitted (h : r.Linked) (p : Profile) : r.Fitted τ p where
  narrow := h.narrow
  capacity_eq := h.toNat_maxRegions.symm
  words_eq := by rw [h.toNat_maxRegions, h.wellFormed.size_words]
  slots_eq := h.room.trans h.toNat_maxRegions.symm
  contains_fault_iff := fun paused _ _ => h.contains_fault_iff (readable_of_checks paused)
  record_fault_iff := fun recording _ _ _ => h.record_fault_iff (allowed_of_checks recording)
  record_range_iff := by
    intro recording table index
    refine ⟨?_, fun beyond => ⟨_, _, (h.record_fault_iff (allowed_of_checks recording)).mpr
      (Or.inl ⟨beyond, rfl⟩)⟩⟩
    rintro ⟨i, capacity, faulted⟩
    rcases (h.record_fault_iff (allowed_of_checks recording)).mp faulted with beyond | lost
    · exact beyond.1
    · exact absurd lost.2.2 (table.region_ne_range index i capacity)

end Recorder

namespace Session

variable {τ : Type} {n m : Nat}

def begunSize? (entry : Entry (Session τ n m) Command Reply) : Option UInt32 :=
  match entry.request, entry.answer.verdict with
  | .beginPause regions, .answered _ => some regions
  | _, _ => none

def begunSizes (k : Fin n) (log : List (Entry (Session τ n m) Command Reply)) : List UInt32 :=
  (stepsOf k log).filterMap begunSize?

/-- The sizes of the recorder that a step reports, in its answer or by its events. -/
def reportedSizes (entry : Entry (Session τ n m) Command Reply) : List UInt32 :=
  ((sealed? entry).map Summary.maxRegions).toList ++ entry.answer.events.filterMap Event.size?

theorem begunSizes_append (k : Fin n) (log more : List (Entry (Session τ n m) Command Reply)) :
    begunSizes k (log ++ more) = begunSizes k log ++ begunSizes k more := by
  rw [begunSizes, stepsOf, List.filter_append, List.filterMap_append]
  rfl

/-- Pauses are begun for the sizes that are asked for. -/
theorem mem_of_begunSizes {serve : Session τ n m → Command → Reply × Session τ n m}
    {s : Session τ n m} {commands : List Command} {k : Fin n} {size : UInt32}
    (begun : size ∈ begunSizes k (transcript serve s commands)) : .beginPause size ∈ commands := by
  obtain ⟨entry, member, sized⟩ := List.mem_filterMap.mp begun
  have asked : entry.request = .beginPause size := by
    unfold begunSize? at sized
    split at sized
    · next regions _ request _ =>
      rw [request, Option.some.inj sized]
    · cases sized
  rw [← asked]
  exact Transcript.request_mem (List.mem_of_mem_filter member)

/-- What is admitted and begins is admitted for the size for which it begins. -/
theorem admitted?_eq_begunSize? {entry : Entry (Session τ n m) Command Reply}
    (begun : admitted? entry ≠ none → begun? entry ≠ none) :
    admitted? entry = begunSize? entry := by
  cases request : entry.request with
  | beginPause regions =>
      cases verdict : entry.answer.verdict with
      | answered answer => simp [admitted?, begunSize?, request, verdict]
      | faulted fault =>
          have unbegun : begun? entry = none := by simp [begun?, request, verdict]
          have unmade : admitted? entry = none := by
            by_contra admitted
            exact begun admitted unbegun
          simp [unmade, begunSize?, request, verdict]
      | refused refusal => simp [admitted?, begunSize?, request, verdict]
  | _ => simp [admitted?, begunSize?, request]

theorem Sized.maxRegions_eq {first : UInt32} {sizes : List UInt32} {r : Recorder}
    (h : Sized first sizes r) : r.maxRegions = sizes.foldl max first :=
  UInt32.le_antisymm ((h _).mpr (foldl_max_le_iff.mp (UInt32.le_refl _)))
    (foldl_max_le_iff.mpr ((h _).mp (UInt32.le_refl _)))

variable [Layout τ] {p : Profile} {capture : Level} {s : Session τ n m}
  {entry : Entry (Session τ n m) Command Reply}

/-! ## One step -/

/-- An act gives up no room, and what it reports is the room that the recorder then has. -/
theorem Act.maxRegions_le (act : Act p capture entry) (linked : entry.before.recorder.Linked) :
    entry.before.recorder.maxRegions ≤
      (entry.before.recorderAfter p entry.request).maxRegions := by
  have prepared (regions : UInt32) :
      entry.before.recorder.maxRegions ≤ (entry.before.recorder.prepare regions).maxRegions := by
    rw [UInt32.le_iff_toNat_le, linked.toNat_maxRegions,
      (linked.blank_prepare regions).toNat_maxRegions, linked.capacity_prepare]
    exact Nat.le_max_left _ _
  cases act with
  | begins regions _ _ _ _ _ recorder =>
      rw [recorder]
      exact prepared regions
  | exhausts regions _ _ _ _ recorder =>
      rw [recorder]
      exact prepared regions
  | records won _ _ recorder =>
      rw [recorder, Recorder.maxRegions, Recorder.maxRegions, Recorder.capacity_enlistAll]
      exact UInt32.le_refl _
  | seals _ _ _ recorder =>
      rw [recorder]
      exact UInt32.le_refl _
  | resets _ recorder =>
      rw [recorder]
      exact UInt32.le_refl _
  | rests _ recorder =>
      rw [recorder]
      exact UInt32.le_refl _

theorem Act.reports (act : Act p capture entry) {size : UInt32}
    (reported : size ∈ entry.answer.events.filterMap Event.size?) :
    size = (entry.before.recorderAfter p entry.request).maxRegions := by
  cases act with
  | begins regions _ _ _ _ _ recorder events =>
      rw [events] at reported
      have reported := Event.mem_of_captured reported
      rw [Event.size?_opening] at reported
      rw [recorder]
      exact List.mem_singleton.mp reported
  | exhausts _ _ _ _ _ _ events =>
      rw [events] at reported
      cases reported
  | records won _ _ recorder _ events =>
      rw [events] at reported
      have reported := Event.mem_of_captured reported
      rw [Event.size?_listings] at reported
      cases reported
  | seals _ _ _ recorder events =>
      rw [events] at reported
      have reported := Event.mem_of_captured reported
      rw [recorder]
      exact List.mem_singleton.mp reported
  | resets _ _ events =>
      rw [events] at reported
      have reported := Event.mem_of_captured reported
      rw [Event.size?_reset] at reported
      cases reported
  | rests _ _ events =>
      rw [events] at reported
      cases reported

/-- What a step reports is the room that the recorder then has. -/
theorem reports_step (linked : s.Linked) {command : Command} {size : UInt32}
    (reported : size ∈ reportedSizes (Entry.of (fun s => s.step p capture) s command)) :
    size = (s.recorderAfter p command).maxRegions := by
  rcases List.mem_append.mp reported with answered | emitted
  · obtain ⟨summary, sealed, rfl⟩ := Option.map_eq_some_iff.mp (Option.mem_toList.mp answered)
    obtain ⟨_, recorder, _, rfl⟩ := sealed_step sealed
    rw [recorder]
    rfl
  · exact (acts capture linked.recorder command).reports emitted

theorem maxRegions_le_step (linked : s.Linked) (command : Command) (k : Fin n) :
    (s.recorderAt k).maxRegions ≤ ((s.step p capture command).2.recorderAt k).maxRegions := by
  rw [recorderAt_step p capture linked.recorder]
  split
  · next same =>
    subst same
    exact (acts capture linked.recorder command).maxRegions_le linked.recorder
  · exact UInt32.le_refl _

/-! ## Runs -/

/-- A recorder is as large as its table was at first, or as the largest pause that it made room for. -/
theorem maxRegions_run (p : Profile) (capture : Level) (tables : Vector (Table τ) m)
    (seat : Fin n → Fin m) (current : Fin n) (commands : List Command) (k : Fin n) :
    (((start tables seat current).run p capture commands).2.recorderAt k).maxRegions =
      (sizesOf k (transcript (fun s => s.step p capture) (start tables seat current) commands)).foldl
        max (tables.get (seat k)).maxRegions := by
  rw [run_snd]
  exact ((Transcript.induction (Measured fun k => (tables.get (seat k)).maxRegions)
    (measured_start tables seat current) (fun _ _ command h => h.step command)
    commands).sized k).maxRegions_eq

/-- As long as the numbers of pauses are not used up, room is made for the pauses that begin. -/
theorem sizesOf_eq_begunSizes {tables : Vector (Table τ) m} {seat : Fin n → Fin m} {current : Fin n}
    {commands : List Command}
    (few : p.checks = true → (pauseIds (transcript (fun s => s.step p capture)
      (start tables seat current) commands)).length < UInt64.size - 1) (k : Fin n) :
    sizesOf k (transcript (fun s => s.step p capture) (start tables seat current) commands) =
      begunSizes k
        (transcript (fun s => s.step p capture) (start tables seat current) commands) :=
  List.filterMap_congr fun _ member => admitted?_eq_begunSize?
    (begun_of_admitted few (List.mem_of_mem_filter member))

/-- In every profile, over every run on any number of recorders: a recorder is as large as its table was
when it was made, or as the largest pause that was admitted since, in all its parts; if the pauses leave
a number over, or the profile does not check, these are the pauses that it has begun.  It refuses
exactly the indices that are not below this size; and the next step gives none of it up, and reports it
in every summary and on every span that it opens. -/
theorem capacities_run (p : Profile) (capture : Level) (tables : Vector (Table τ) m)
    (seat : Fin n → Fin m) (current : Fin n) (commands : List Command) :
    let log := transcript (fun s => s.step p capture) (start tables seat current) commands
    let s := ((start tables seat current).run p capture commands).2
    (∀ k, (s.recorderAt k).Fitted τ p ∧
        (s.recorderAt k).maxRegions =
          (sizesOf k log).foldl max (tables.get (seat k)).maxRegions ∧
        ((p.checks = true → (pauseIds log).length < UInt64.size - 1) →
          (s.recorderAt k).maxRegions =
            (begunSizes k log).foldl max (tables.get (seat k)).maxRegions)) ∧
      ∀ command,
        let next := ((start tables seat current).run p capture (commands ++ [command])).2
        (∀ k, (s.recorderAt k).maxRegions ≤ (next.recorderAt k).maxRegions) ∧
          ∀ size ∈ reportedSizes (Entry.of (fun s => s.step p capture) s command),
            size = (next.recorderAt s.current).maxRegions := by
  intro log s
  have linked : s.Linked := linked_run p capture tables seat current commands
  have sized (k : Fin n) : (s.recorderAt k).maxRegions =
      (sizesOf k log).foldl max (tables.get (seat k)).maxRegions :=
    maxRegions_run p capture tables seat current commands k
  refine ⟨fun k => ⟨(linked k).fitted p, sized k, fun few => ?_⟩, fun command => ?_⟩
  · rw [sized k, sizesOf_eq_begunSizes few k]
  · have next : ((start tables seat current).run p capture (commands ++ [command])).2 =
        (s.step p capture command).2 := congrArg Prod.snd (run_append ..)
    rw [next]
    refine ⟨maxRegions_le_step linked command, fun size reported => ?_⟩
    rw [recorderAt_step p capture linked.recorder, if_pos rfl]
    exact reports_step linked reported

/-- A recorder made for one region begins a pause over four of them and then one over two, which has
room for all four and says so when it is sealed. -/
theorem capacities_run_shrinking :
    let commands : List Command := [.table (.commit 4), .beginPause 4, .sealPause 3, .beginPause 2]
    let first : Session Plan 1 1 := start #v[⟨.growing 1, .ofSize 6⟩] (fun _ => 0) 0
    let log := transcript (fun s => s.step .debug .trace) first commands
    let s := (first.run .debug .trace commands).2
    (Profile.debug.checks = true → (pauseIds log).length < UInt64.size - 1) ∧
      (s.recorderAt 0).maxRegions = 4 ∧ begunSizes 0 log = [4, 2] ∧
      reportedSizes (Entry.of (fun s => s.step .debug .trace) s (.sealPause 5)) = [4, 4] ∧
      (s.recorderAt 0).maxRegions = (begunSizes 0 log).foldl max 1 := by
  intro commands first log s
  have few : Profile.debug.checks = true → (pauseIds log).length < UInt64.size - 1 := by
    decide +kernel
  refine ⟨few, by decide +kernel, by decide +kernel, by decide +kernel, ?_⟩
  have sized := (capacities_run (τ := Plan) (n := 1) (m := 1) .debug .trace #v[⟨.growing 1, .ofSize 6⟩]
    (fun _ => 0) 0 commands).1
  exact (sized 0).2.2 few

/-- Where all the numbers of pauses are used up, room is made for a pause that is admitted and does not
begin: the recorder is larger than its table was at first and than every pause that it has begun. -/
theorem capacities_run_counted_out :
    let commands := laps (UInt64.size - 1) ++ [.table (.commit 2), .beginPause 2]
    let first : Session Plan 1 1 := shared 0 ⟨.growing 1, .ofSize 2⟩
    let log := transcript (fun s => s.step .debug .off) first commands
    first.table.maxRegions = 1 ∧ (begunSizes 0 log).foldl max 1 = 1 ∧
      ((first.run .debug .off commands).2.recorderAt 0).maxRegions = 2 := by
  intro commands first log
  have lapped (more : List Command) : (first.run .debug .off (laps (UInt64.size - 1) ++ more)).2 =
      ((lapped (UInt64.ofNat (UInt64.size - 1))).run .debug .off more).2 :=
    run_laps_append (by decide) more
  refine ⟨by decide +kernel, ?_, ?_⟩
  · have last : begunSizes 0 (transcript (fun s => s.step .debug .off)
        (Session.lapped (UInt64.ofNat (UInt64.size - 1))) [.table (.commit 2), .beginPause 2]) = [] := by
      decide +kernel
    have counted : (first.run .debug .off (laps (UInt64.size - 1))).2 =
        Session.lapped (UInt64.ofNat (UInt64.size - 1)) := run_laps (by decide)
    have split : log = _ ++ _ := Transcript.transcript_append _ first (laps (UInt64.size - 1)) _
    rw [← run_snd, counted] at split
    have bounded : (begunSizes 0 log).foldl max 1 ≤ 1 := by
      refine foldl_max_le_iff.mpr ⟨UInt32.le_refl 1, fun size member => ?_⟩
      rw [split, begunSizes_append, last, List.append_nil] at member
      rcases mem_laps (mem_of_begunSizes member) with zero | other
      · rw [Command.beginPause.inj zero]
        decide
      · cases other
    exact UInt32.le_antisymm bounded (foldl_max_le_iff.mp (UInt32.le_refl _)).1
  · rw [lapped]
    decide +kernel

end Session

end Evacuation
