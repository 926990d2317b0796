import Evacuation.Proofs.Session.Acts

/-!
# What a fault leaves behind

A call that faults changes nothing and emits nothing, whatever it was about.  There is one exception:
a recording strands its region if it wins the claim and the table has no region to tell.  The region is
then listed, as if it had been told, and further recordings of it in the same pause are answered as
lost.

`Session.harmless_execute` goes through the calls; `Session.faults_run` is what holds in every state
that a session can come to.
-/

namespace Evacuation

/-- Whether a command is one call; a series of recordings is as many as it has regions. -/
def Command.single : Command → Bool
  | .recordAll _ | .recordRange .. => false
  | _ => true

/-! ## Faults of the parts -/

namespace Table

variable {τ : Type} [Layout τ] {t : Table τ} {index : UInt32} {fault : Fault}

theorem update_of_faulted {change : Region → Region} (lost : (t.update index change).1 = .error fault) :
    (t.update index change).2 = t := by
  cases placed : Layout.place t.layout index with
  | error other => rw [update_of_error placed]
  | ok place =>
      rw [update_of_place placed, Heap.update] at lost
      rw [update_of_place placed, Heap.update]
      split at lost
      · cases lost
      · next beyond => rw [if_neg beyond]

/-- A request that faults leaves the table as it was. -/
theorem serve_of_faulted {request : Request} (faulted : (t.serve request).1 = .error fault) :
    (t.serve request).2 = t := by
  cases request with
  | note index =>
      cases told : (t.note index).1 with
      | error other => exact update_of_faulted told
      | ok => simp [serve, told, Except.map] at faulted
  | clearRegion index =>
      cases cleared : (t.clearRegion index).1 with
      | error other => exact update_of_faulted cleared
      | ok => simp [serve, cleared, Except.map] at faulted
  | commit regions => cases faulted
  | clearAll => cases faulted
  | _ => rfl

/-- A note finds the region that a look at it finds, or faults as the look does. -/
theorem note_of_region (lost : t.region index = .error fault) : t.note index = (.error fault, t) := by
  unfold region at lost
  unfold note
  cases placed : Layout.place t.layout index with
  | error other =>
      rw [placed] at lost
      rw [update_of_error placed, Except.error.inj lost]
  | ok place =>
      have lost : t.heap.region place = .error fault := by
        rw [placed] at lost
        exact lost
      rw [update_of_place placed, Heap.update]
      unfold Heap.region at lost
      by_cases inside : place.toNat < t.heap.regions.size
      · simp [inside] at lost
      · simp only [Array.getElem?_eq_none (Nat.le_of_not_lt inside)] at lost
        rw [if_neg inside, Except.error.inj lost]

end Table

/-- A request that faults leaves the claim board as it was. -/
theorem ClaimBoard.serve_of_faulted {p : Profile} {b : ClaimBoard} {request : Request} {fault : Fault}
    (faulted : (b.serve p request).1 = .error fault) : (b.serve p request).2 = b := by
  cases request with
  | claim index =>
      by_cases inside : index.toNat < b.claims.size
      · simp [serve, claim_of_lt inside, Except.map] at faulted
      · exact congrArg Prod.snd (claim_of_le (Nat.le_of_not_lt inside))
  | release => cases faulted
  | _ => rfl

namespace Recorder

variable {p : Profile} {r : Recorder} {totals : Totals}

theorem sealPause_of_faulted {nanos : UInt64} {fault : Fault}
    (faulted : (r.sealPause p nanos totals).result = .error fault) :
    r.sealPause p nanos totals = .faulted fault (r, totals) [] := by
  unfold sealPause at faulted ⊢
  split at faulted
  · next refused =>
    cases faulted
    rw [if_pos refused]
  · cases faulted

/-- As long as the pauses can be counted, a pause that does not begin changes nothing. -/
theorem beginPause_of_faulted {offered requested : UInt32} {fault : Fault}
    (counts : p.checks = true → totals.pauses + 1 ≠ 0)
    (faulted : (r.beginPause p offered requested totals).result = .error fault) :
    r.beginPause p offered requested totals = .faulted fault (r, totals) [] := by
  obtain ⟨other, same⟩ | ⟨other, counted, full, _⟩ | ⟨_, _, _, same⟩ :=
    beginPause_cases p offered requested r totals
  · rw [same] at faulted ⊢
    cases faulted
    rfl
  · obtain ⟨_, checks, wrapped⟩ := Totals.openPause_of_error full
    exact absurd wrapped (counts checks)
  · rw [same] at faulted
    cases faulted

end Recorder

namespace Session

variable {τ : Type} {n m : Nat}

def Harmless (s : Session τ n m) (effect : Effect τ n m) : Prop :=
  ∀ fault, effect.verdict = .faulted fault → effect.session = s ∧ effect.events = []

section Effects

variable {s : Session τ n m}

theorem error_of_faulted {result : Except Fault Answer} {fault : Fault}
    (faulted : Verdict.ofResult result = .faulted fault) : result = .error fault := by
  cases result with
  | error other =>
      cases faulted
      rfl
  | ok value => cases faulted

theorem error_of_map {α : Type} {result : Except Fault α} {answer : α → Answer} {fault : Fault}
    (faulted : result.map answer = .error fault) : result = .error fault := by
  cases result with
  | error other =>
      cases faulted
      rfl
  | ok value => cases faulted

theorem harmless_reading (result : Except Fault Answer) : s.Harmless (s.reading result) :=
  fun _ _ => ⟨rfl, rfl⟩

theorem harmless_recording {α : Type} {answer : α → Answer} {outcome : Outcome (Recorder × Table τ) α}
    (quiet : ∀ fault, outcome.result = .error fault →
      outcome.state = (s.recorder, s.table) ∧ outcome.events = []) :
    s.Harmless (s.recording answer outcome) := by
  intro fault faulted
  obtain ⟨state, events⟩ := quiet fault (error_of_map (error_of_faulted faulted))
  refine ⟨?_, events⟩
  rw [recording, state, withRecorder_self, withTable_self]

theorem harmless_accounting {α : Type} {answer : α → Answer} {outcome : Outcome (Recorder × Totals) α}
    (quiet : ∀ fault, outcome.result = .error fault →
      outcome = .faulted fault (s.recorder, s.totals) []) :
    s.Harmless (s.accounting answer outcome) := by
  intro fault faulted
  rw [quiet fault (error_of_map (error_of_faulted faulted))]
  refine ⟨?_, rfl⟩
  change { s.withRecorder s.recorder with totals := s.totals } = s
  rw [withRecorder_self]

theorem harmless_onBoard {number : Nat} {operate : ClaimBoard → Except Fault Answer × ClaimBoard}
    (quiet : ∀ board fault, (operate board).1 = .error fault → (operate board).2 = board) :
    s.Harmless (s.onBoard number operate) := by
  intro fault faulted
  refine ⟨?_, s.events_onBoard number operate⟩
  unfold onBoard at faulted ⊢
  cases found : s.boards[number]? with
  | none => rfl
  | some board =>
      rw [found] at faulted
      dsimp only
      rw [quiet board fault (error_of_faulted faulted)]
      have same : s.boards.setIfInBounds number board = s.boards := by
        obtain ⟨inside, rfl⟩ := Array.getElem?_eq_some_iff.mp found
        simp [Array.setIfInBounds, inside]
      rw [same]

end Effects

/-! ## Calls -/

variable [Layout τ] {p : Profile} {s : Session τ n m}

/-- A recording strands its region where it wins the claim and the table has no region to tell. -/
structure Strands (p : Profile) (s : Session τ n m) (index : UInt32) : Prop where
  allowed : (p.checks && s.recorder.phase != .recording) = false
  inside : index.toNat < s.recorder.failed.capacity
  free : s.recorder.failed.bit index.toNat = false
  lost : ¬s.table.Resolves index

/-- A recording that faults changes nothing, unless it strands its region. -/
theorem record_of_faulted (linked : s.recorder.Linked) {index : UInt32}
    (kept : ¬Strands p s index) {fault : Fault}
    (faulted : (s.recorder.record p s.table index).result = .error fault) :
    (s.recorder.record p s.table index).state = (s.recorder, s.table) ∧
      (s.recorder.record p s.table index).events = [] := by
  cases allowed : p.checks && s.recorder.phase != .recording with
  | true =>
      rw [Recorder.record_of_refused allowed]
      exact ⟨rfl, rfl⟩
  | false =>
      obtain ⟨refused, _⟩ | ⟨_, same⟩ | ⟨_, same⟩ | ⟨inside, free, same⟩ :=
        linked.record p s.table index
      · rw [allowed] at refused
        cases refused
      · rw [same]
        exact ⟨rfl, rfl⟩
      · rw [same]
        exact ⟨rfl, rfl⟩
      · have resolves : s.table.Resolves index := by
          by_contra lost
          exact kept ⟨allowed, inside, free, lost⟩
        rw [same, Table.note_of_resolves resolves] at faulted
        cases faulted

/-- A call that faults has no effect, unless it strands a region. -/
theorem harmless_execute (linked : s.recorder.Linked)
    (counts : p.checks = true → s.totals.pauses + 1 ≠ 0) {command : Command}
    (single : command.single = true)
    (kept : ∀ index, command = .record index → ¬Strands p s index) :
    s.Harmless (s.execute p command) := by
  cases command with
  | beginPause regions =>
      exact harmless_accounting fun _ => Recorder.beginPause_of_faulted counts
  | sealPause nanos => exact harmless_accounting fun _ => Recorder.sealPause_of_faulted
  | record index =>
      exact harmless_recording fun _ => record_of_faulted linked (kept index rfl)
  | recordAll indices => cases single
  | recordRange first limit stride => cases single
  | reset => nofun
  | use recorder =>
      unfold execute
      dsimp only
      split <;> nofun
  | openBoard workers size =>
      unfold execute
      dsimp only
      split
      · nofun
      · exact fun _ _ => ⟨rfl, rfl⟩
  | releaseBoard board => exact harmless_onBoard fun _ _ => ClaimBoard.serve_of_faulted
  | claim board index => exact harmless_onBoard fun _ _ => ClaimBoard.serve_of_faulted
  | isClaimed board index => exact harmless_onBoard fun _ _ => ClaimBoard.serve_of_faulted
  | walk board worker limit => exact harmless_onBoard fun _ _ stopped => by cases stopped
  | table request =>
      intro fault faulted
      refine ⟨?_, rfl⟩
      change s.withTable (s.table.serve request).2 = s
      rw [Table.serve_of_faulted (error_of_faulted faulted), withTable_self]
  | _ => exact harmless_reading _

/-! ## Stranded regions -/

/-- A step that does not make a recorder forget keeps what is listed. -/
theorem Act.keeps_entries {capture : Level} {entry : Entry (Session τ n m) Command Reply}
    (act : Act p capture entry) (kept : forgets entry = false) :
    entry.before.recorder.journal.entries <+:
      (entry.before.recorderAfter p entry.request).journal.entries := by
  cases act with
  | begins _ _ _ _ admitted =>
      simp [forgets, admitted] at kept
  | exhausts _ _ admitted =>
      simp [forgets, admitted] at kept
  | resets request =>
      simp [forgets, request] at kept
  | records won _ _ recorder entries =>
      rw [recorder, entries]
      exact List.prefix_append _ won
  | seals _ _ _ recorder =>
      rw [recorder]
  | rests _ recorder =>
      rw [recorder]

/-- What a recorder has listed stays listed until it is made to forget. -/
theorem listed_run (capture : Level) (linked : s.Linked) {k : Fin n} {index : UInt32}
    (listed : index ∈ (s.recorderAt k).journal.entries) (commands : List Command)
    (kept : ∀ entry ∈ stepsOf k (transcript (fun s => s.step p capture) s commands),
      forgets entry = false) :
    index ∈ ((s.run p capture commands).2.recorderAt k).journal.entries :=
  recorderAt_induction (fun r => index ∈ r.journal.entries) (fun entry => forgets entry = false)
    (fun _ act kept listed => (act.keeps_entries kept).subset listed) linked listed commands kept

/-- A recording of a region that is listed is answered as lost, and has no effect. -/
theorem step_record_of_listed (capture : Level) (linked : s.recorder.Linked)
    (allowed : (p.checks && s.recorder.phase != .recording) = false) {index : UInt32}
    (listed : index ∈ s.recorder.journal.entries) :
    s.step p capture (.record index) = (⟨.answered (.flag false), s.recorder.phase, []⟩, s) := by
  have taken := (linked.listed.mem_iff index).mp listed
  have lost : s.recorder.record p s.table index = .done false (s.recorder, s.table) [] :=
    Recorder.record_of_taken linked.wellFormed allowed taken s.table
  have effect : s.execute p (.record index) = ⟨.answered (.flag false), s, []⟩ := by
    change s.recording .flag (s.recorder.record p s.table index) = _
    rw [lost, recording]
    change Effect.mk _ ((s.withRecorder s.recorder).withTable s.table) [] = _
    rw [withRecorder_self, withTable_self]
    rfl
  rw [step, effect, Event.captured_nil]

/-- A region that is listed cannot be won again before its recorder is made to forget. -/
theorem lost_run (capture : Level) (linked : s.Linked) {k : Fin n} {index : UInt32}
    (listed : index ∈ (s.recorderAt k).journal.entries) {commands : List Command}
    (kept : ∀ entry ∈ stepsOf k (transcript (fun s => s.step p capture) s commands),
      forgets entry = false)
    (current : (s.run p capture commands).2.current = k)
    (allowed : (p.checks && (s.run p capture commands).2.recorder.phase != .recording) = false) :
    (s.run p capture commands).2.step p capture (.record index) =
      (⟨.answered (.flag false), (s.run p capture commands).2.recorder.phase, []⟩,
        (s.run p capture commands).2) := by
  have still := linked.run p capture commands
  have listed := listed_run capture linked listed commands kept
  rw [← current] at listed
  exact step_record_of_listed capture still.recorder allowed listed

/-- What a recording that strands its region leaves behind: the region is claimed and listed, which is
reported, nobody is told, and no later recording of it wins before the recorder is made to forget. -/
structure Stranded (p : Profile) (capture : Level) (s : Session τ n m) (index : UInt32)
    (reply : Reply) (now : Session τ n m) : Prop where
  fault : ∃ fault, s.table.region index = .error fault ∧ reply.verdict = .faulted fault
  events : reply.events =
    Event.captured p capture [.regionRecorded s.recorder.span index s.recorder.journal.cursor]
  others : now = s.withRecorder now.recorder
  bit : ∀ i, now.recorder.failed.bit i = (s.recorder.failed.bit i || decide (index.toNat = i))
  entries : now.recorder.journal.entries = s.recorder.journal.entries ++ [index]
  capacity : now.recorder.failed.capacity = s.recorder.failed.capacity
  phase : now.recorder.phase = s.recorder.phase
  pauseId : now.recorder.pauseId = s.recorder.pauseId
  span : now.recorder.span = s.recorder.span
  later : ∀ commands,
    (∀ entry ∈ stepsOf s.current (transcript (fun s => s.step p capture) now commands),
      forgets entry = false) →
    (now.run p capture commands).2.current = s.current →
    (p.checks && (now.run p capture commands).2.recorder.phase != .recording) = false →
      (now.run p capture commands).2.step p capture (.record index) =
        (⟨.answered (.flag false), (now.run p capture commands).2.recorder.phase, []⟩,
          (now.run p capture commands).2)

/-- A recording that strands its region faults with the fault of the table, once the region is claimed
and listed. -/
theorem Strands.step_record (h : Strands p s index) (capture : Level)
    (linked : s.recorder.Linked) :
    ∃ fault, s.table.region index = .error fault ∧
      s.step p capture (.record index) =
        (⟨.faulted fault, s.recorder.phase, Event.captured p capture
            [.regionRecorded s.recorder.span index s.recorder.journal.cursor]⟩,
          s.withRecorder (s.recorder.enlist index)) := by
  obtain ⟨fault, unresolved⟩ : ∃ fault, s.table.region index = .error fault := by
    cases found : s.table.region index with
    | error fault => exact ⟨fault, rfl⟩
    | ok region => exact absurd ⟨region, found⟩ h.lost
  have recorded : s.recorder.record p s.table index =
      .faulted fault (s.recorder.enlist index, s.table)
        [.regionRecorded s.recorder.span index s.recorder.journal.cursor] := by
    rw [linked.record_of_free h.allowed h.inside h.free, Table.note_of_region unresolved]
    rfl
  have effect : s.execute p (.record index) =
      ⟨.faulted fault, s.withRecorder (s.recorder.enlist index),
        [.regionRecorded s.recorder.span index s.recorder.journal.cursor]⟩ := by
    change s.recording .flag (s.recorder.record p s.table index) = _
    rw [recorded, recording]
    exact congrArg (Effect.mk _ · _) (s.withRecorder (s.recorder.enlist index)).withTable_self
  refine ⟨fault, unresolved, ?_⟩
  rw [step, effect, recorder_withRecorder]
  rfl

/-- A recording strands its region just as `Strands` says. -/
theorem Strands.stranded (h : Strands p s index) (capture : Level) (linked : s.Linked) :
    Stranded p capture s index (s.step p capture (.record index)).1
      (s.step p capture (.record index)).2 := by
  obtain ⟨fault, unresolved, same⟩ := h.step_record capture linked.recorder
  have still : Linked (s.step p capture (.record index)).2 := linked.step (.record index)
  have entries := linked.recorder.entries_enlist h.inside h.free
  rw [same] at still ⊢
  have recorder := s.recorder_withRecorder (s.recorder.enlist index)
  constructor
  case fault => exact ⟨fault, unresolved, rfl⟩
  case events => rfl
  case others => rw [recorder]
  case bit =>
    intro i
    rw [recorder]
    exact RegionSet.bit_insert linked.recorder.wellFormed h.inside i
  case entries => rw [recorder, entries]
  case later =>
    intro commands kept current allowed
    refine lost_run capture still ?_ kept current allowed
    rw [recorderAt_withRecorder, if_pos rfl, entries]
    exact List.mem_append_right _ List.mem_cons_self
  all_goals rw [recorder]; rfl

/-! ## Reachable states -/

/-- As long as the pauses are few, they can be counted on. -/
theorem counts_run {capture : Level} {tables : Vector (Table τ) m} {seat : Fin n → Fin m}
    {current : Fin n} {commands : List Command} (checks : p.checks = true)
    (few : (pauseIds (transcript (fun s => s.step p capture) (start tables seat current)
      commands)).length < UInt64.size - 1) :
    ((start tables seat current).run p capture commands).2.totals.pauses + 1 ≠ 0 := by
  cases p with
  | debug => exact (kept_run few).numbered.counts (by omega)
  | release => cases checks
  | plain => cases checks

/-- In every profile and every state that a session can come to, as long as the pauses are few: a call
that faults leaves the session as it was and emits nothing, unless it strands a region; and a request
to a claim board that faults, whatever it asks for, does neither. -/
theorem faults_run (p : Profile) (capture : Level) (tables : Vector (Table τ) m)
    (seat : Fin n → Fin m) (current : Fin n) (commands : List Command)
    (few : (pauseIds (transcript (fun s => s.step p capture) (start tables seat current)
      commands)).length < UInt64.size - 1) :
    let s := ((start tables seat current).run p capture commands).2
    (∀ command fault, command.single = true →
      (s.step p capture command).1.verdict = .faulted fault →
        ((s.step p capture command).2 = s ∧ (s.step p capture command).1.events = []) ∨
          ∃ index, command = .record index ∧ Strands p s index) ∧
      (∀ index, Strands p s index →
        Stranded p capture s index (s.step p capture (.record index)).1
          (s.step p capture (.record index)).2) ∧
      ∀ number request fault,
        (s.onBoard number fun board => board.serve p request).verdict = .faulted fault →
          (s.onBoard number fun board => board.serve p request).session = s ∧
            (s.onBoard number fun board => board.serve p request).events = [] := by
  intro s
  have linked : s.Linked := linked_run p capture tables seat current commands
  refine ⟨?calls, ?stranded, ?boards⟩
  case calls =>
    intro command fault single faulted
    by_cases stranding : ∃ index, command = .record index ∧ Strands p s index
    · exact Or.inr stranding
    · have harmless : s.Harmless (s.execute p command) :=
        harmless_execute linked.recorder (counts_run · few) single
          fun index record strands => stranding ⟨index, record, strands⟩
      obtain ⟨session, events⟩ := harmless fault faulted
      refine Or.inl ⟨session, ?_⟩
      change Event.captured p capture (s.execute p command).events = []
      rw [events, Event.captured_nil]
  case stranded => exact fun index strands => strands.stranded capture linked
  case boards =>
    exact fun number request => harmless_onBoard fun _ _ => ClaimBoard.serve_of_faulted

/-- A table that gives regions up during a pause strands the recording of one of them. -/
theorem faults_run_shrunk :
    let tables : Vector (Table Plan) 1 := #v[⟨.growing 4, .ofSize 4⟩]
    let commands : List Command :=
      [.beginPause 4, .record 1, .openBoard 2 4, .table (.commit 2), .record 4, .beginPause 2]
    let s : Session Plan 2 1 := ((start tables (fun _ => 0) 0).run .debug .trace commands).2
    (pauseIds (transcript (fun s => s.step .debug .trace)
        (start tables (fun _ => 0) (0 : Fin 2)) commands)).length < UInt64.size - 1 ∧
      Strands .debug s 3 ∧
      Stranded .debug .trace s 3 (s.step .debug .trace (.record 3)).1
        (s.step .debug .trace (.record 3)).2 := by
  intro tables commands s
  have few : (pauseIds (transcript (fun s => s.step .debug .trace)
      (start tables (fun _ => 0) (0 : Fin 2)) commands)).length < UInt64.size - 1 := by
    decide +kernel
  have lost : ¬s.table.Resolves 3 := by
    rw [← Table.note_eq_ok_iff]
    decide +kernel
  have strands : Strands .debug s 3 :=
    ⟨by decide +kernel, by decide +kernel, by decide +kernel, lost⟩
  exact ⟨few, strands, (faults_run .debug .trace tables (fun _ => 0) 0 commands few).2.1 3 strands⟩

end Session

end Evacuation
