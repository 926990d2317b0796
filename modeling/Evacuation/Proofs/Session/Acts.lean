import Mathlib.Data.List.DropRight
import Evacuation.Proofs.Recorder.Admission
import Evacuation.Proofs.Session.Totals

/-!
# Acts on a recorder

A step of a session begins a pause, records, seals, resets, or leaves the recorder in use as it was.
`Session.Act` lists what becomes of the recorder and which events are emitted in each case, in every
profile and at every capture level; `Session.acts` says that every step is one of these acts.

A step that makes a recorder forget what it has listed opens a chapter of that recorder's steps.
-/

namespace Evacuation

theorem Event.captured_nil (p : Profile) (capture : Level) : captured p capture [] = [] := by
  cases p <;> rfl

namespace Recorder

variable {τ : Type} [Layout τ]

theorem events_recordAll_singleton (p : Profile) (r : Recorder) (table : Table τ) (index : UInt32) :
    (r.recordAll p table [index]).events = (r.record p table index).events := by
  rcases first : r.record p table index with ⟨fault | won, state, events⟩
  · rw [recordAll_of_error first]
    rfl
  · rw [recordAll_of_ok first]
    exact List.append_nil events

end Recorder

namespace Session

variable {τ : Type} {n m : Nat}

/-! ## Chapters -/

/-- The number of regions that a step makes room for.  A pause that the checks admit has its room
prepared, even if it then finds that the pauses cannot be counted any further. -/
def admitted? (entry : Entry (Session τ n m) Command Reply) : Option UInt32 :=
  match entry.request, entry.answer.verdict with
  | .beginPause regions, .answered _ => some regions
  | .beginPause regions, .faulted .sumOverflow => some regions
  | _, _ => none

def forgets (entry : Entry (Session τ n m) Command Reply) : Bool :=
  (admitted? entry).isSome || decide (entry.request = .reset)

/-- The steps on a recorder since it last forgot what it had listed. -/
def chapter (k : Fin n) (log : List (Entry (Session τ n m) Command Reply)) :
    List (Entry (Session τ n m) Command Reply) :=
  (stepsOf k log).rtakeWhile fun entry => !forgets entry

section Log

variable (log : List (Entry (Session τ n m) Command Reply))
  (entry : Entry (Session τ n m) Command Reply)

theorem chapter_concat_of_ne {k : Fin n} (apart : entry.before.current ≠ k) :
    chapter k (log ++ [entry]) = chapter k log := by
  rw [chapter, stepsOf_concat_of_ne _ _ apart, chapter]

theorem chapter_concat : chapter entry.before.current (log ++ [entry]) =
    if forgets entry then [] else chapter entry.before.current log ++ [entry] := by
  rw [chapter, stepsOf_concat_self, List.rtakeWhile_concat]
  cases forgets entry <;> rfl

theorem admitted?_of_kept {entry : Entry (Session τ n m) Command Reply}
    (kept : forgets entry = false) : admitted? entry = none := by
  rw [forgets, Bool.or_eq_false_iff, Option.isSome_eq_false_iff, Option.isNone_iff_eq_none] at kept
  exact kept.1

theorem begun?_of_kept {entry : Entry (Session τ n m) Command Reply}
    (kept : forgets entry = false) : begun? entry = none := by
  have unmade := admitted?_of_kept kept
  cases request : entry.request with
  | beginPause regions =>
      cases verdict : entry.answer.verdict with
      | answered answer => simp [admitted?, request, verdict] at unmade
      | faulted fault => simp [begun?, request, verdict]
      | refused refusal => simp [begun?, request, verdict]
  | _ => simp [begun?, request]

theorem request_ne_of_kept {entry : Entry (Session τ n m) Command Reply}
    (kept : forgets entry = false) : entry.request ≠ .reset := by
  intro reset
  simp [forgets, reset] at kept

end Log

/-! ## Events of a command -/

theorem events_onBoard (s : Session τ n m) (number : Nat)
    (operate : ClaimBoard → Except Fault Answer × ClaimBoard) :
    (s.onBoard number operate).events = [] := by
  unfold onBoard
  cases s.boards[number]? <;> rfl

variable [Layout τ]

def emitted (p : Profile) (s : Session τ n m) (command : Command) : List Event :=
  match command.concern with
  | .beginning regions => (s.recorder.beginPause p s.table.maxRegions regions s.totals).events
  | .recording indices =>
    Event.listings s.recorder.span s.recorder.journal.cursor
      (s.recorder.winners p s.table indices)
  | .sealing nanos => (s.recorder.sealPause p nanos s.totals).events
  | .resetting => s.recorder.reset.2
  | .table _ | .other => []

variable {p : Profile} {capture : Level} {s : Session τ n m}
  {entry : Entry (Session τ n m) Command Reply}

/-- A series of recordings, of whatever kind, reports its winners. -/
theorem events_recording (linked : s.recorder.Linked) {command : Command} {indices : List UInt32}
    (about : command.concern = .recording indices) :
    (s.execute p command).events = s.emitted p command := by
  rw [emitted, about]
  dsimp only
  rw [← linked.events_recordAll]
  cases command with
  | record index =>
      cases about
      exact (Recorder.events_recordAll_singleton p s.recorder s.table index).symm
  | recordAll indices =>
      cases about
      rfl
  | recordRange first limit stride =>
      cases about
      exact congrArg Outcome.events (Recorder.recordRange_eq p s.recorder s.table first limit stride)
  | _ => cases about

theorem events_execute (linked : s.recorder.Linked) (command : Command) :
    (s.execute p command).events = s.emitted p command := by
  cases about : command.concern with
  | recording indices => exact events_recording linked about
  | beginning regions =>
      cases command with
      | beginPause regions => rfl
      | _ => cases about
  | sealing nanos =>
      cases command with
      | sealPause nanos => rfl
      | _ => cases about
  | resetting =>
      cases command with
      | reset => rfl
      | _ => cases about
  | table request =>
      cases command with
      | table request => rfl
      | _ => cases about
  | other =>
      rw [emitted, about]
      cases command with
      | use recorder =>
          unfold execute
          dsimp only
          split <;> rfl
      | openBoard workers size =>
          unfold execute
          dsimp only
          split <;> rfl
      | releaseBoard board => exact s.events_onBoard board _
      | claim board index => exact s.events_onBoard board _
      | isClaimed board index => exact s.events_onBoard board _
      | walk board worker limit => exact s.events_onBoard board _
      | beginPause maxRegions => cases about
      | record index => cases about
      | recordAll indices => cases about
      | recordRange first limit stride => cases about
      | sealPause nanos => cases about
      | reset => cases about
      | table request => cases about
      | _ => rfl

/-! ## Acts -/

/-- What a step can be to the recorder in use. -/
inductive Act (p : Profile) (capture : Level) (entry : Entry (Session τ n m) Command Reply) : Prop
  | begins (regions : UInt32) (pauseId : UInt64)
      (request : entry.request = .beginPause regions)
      (begun : begun? entry = some pauseId)
      (admitted : admitted? entry = some regions)
      (fits : p.checks = true → regions ≤ entry.before.table.maxRegions)
      (recorder : entry.before.recorderAfter p entry.request =
        { entry.before.recorder.prepare regions with
          phase := .recording, pauseId, span := some pauseId })
      (events : entry.answer.events = Event.captured p capture
        (.spanOpened pauseId (entry.before.recorder.prepare regions).maxRegions ::
          entry.before.recorder.spanEnd))
  /-- A pause is admitted, but the pauses cannot be counted any further. -/
  | exhausts (regions : UInt32)
      (unbegun : begun? entry = none)
      (admitted : admitted? entry = some regions)
      (full : p.checks = true ∧ entry.before.totals.pauses + 1 = 0)
      (paused : entry.before.recorder.phase ≠ .recording)
      (recorder : entry.before.recorderAfter p entry.request =
        entry.before.recorder.prepare regions)
      (events : entry.answer.events = [])
  | records (won : List UInt32)
      (kept : forgets entry = false)
      (refused : (p.checks && entry.before.recorder.phase != .recording) = true → won = [])
      (recorder : entry.before.recorderAfter p entry.request = entry.before.recorder.enlistAll won)
      (entries : (entry.before.recorder.enlistAll won).journal.entries =
        entry.before.recorder.journal.entries ++ won)
      (events : entry.answer.events = Event.captured p capture
        (Event.listings entry.before.recorder.span entry.before.recorder.journal.cursor won))
  | seals (nanos : UInt64)
      (kept : forgets entry = false)
      (allowed : (p.checks && entry.before.recorder.phase != .recording) = false)
      (recorder : entry.before.recorderAfter p entry.request =
        { entry.before.recorder with phase := .sealed })
      (events : entry.answer.events = Event.captured p capture
        [.recordingSealed entry.before.recorder.span
          ⟨entry.before.recorder.pauseId, entry.before.recorder.journal.cursor,
            entry.before.recorder.maxRegions, nanos⟩])
  | resets
      (request : entry.request = .reset)
      (recorder : entry.before.recorderAfter p entry.request = entry.before.recorder.reset.1)
      (events : entry.answer.events = Event.captured p capture entry.before.recorder.reset.2)
  | rests
      (kept : forgets entry = false)
      (recorder : entry.before.recorderAfter p entry.request = entry.before.recorder)
      (events : entry.answer.events = [])

theorem events_step (capture : Level) (linked : s.recorder.Linked) (command : Command) :
    (s.step p capture command).1.events = Event.captured p capture (s.emitted p command) := by
  rw [← events_execute linked]
  rfl

theorem begun?_beginPause_iff (capture : Level) (regions : UInt32) :
    begun? (Entry.of (fun s => s.step p capture) s (.beginPause regions)) ≠ none ↔
      (s.recorder.beginPause p s.table.maxRegions regions s.totals).result = .ok () := by
  have verdict := verdict_beginPause p capture s regions
  cases result : (s.recorder.beginPause p s.table.maxRegions regions s.totals).result with
  | error fault => simp [begun?, verdict, result, Except.map, Verdict.ofResult]
  | ok => simp [begun?, verdict, result, Except.map, Verdict.ofResult]

theorem act_beginPause (capture : Level) (linked : s.recorder.Linked) (regions : UInt32) :
    Act p capture (Entry.of (fun s => s.step p capture) s (.beginPause regions)) := by
  have recorder : s.recorderAfter p (.beginPause regions) =
      (s.recorder.beginPause p s.table.maxRegions regions s.totals).state.1 := rfl
  have verdict := verdict_beginPause p capture s regions
  have now : (s.step p capture (.beginPause regions)).2.recorder =
      (s.recorder.beginPause p s.table.maxRegions regions s.totals).state.1 :=
    s.recorder_withRecorder _
  have events : (s.step p capture (.beginPause regions)).1.events = Event.captured p capture
      (s.recorder.beginPause p s.table.maxRegions regions s.totals).events :=
    events_step capture linked (.beginPause regions)
  cases admitted : s.recorder.admits p s.table.maxRegions regions with
  | false =>
      have other := s.recorder.refusal_ne s.table.maxRegions regions
      rw [Recorder.beginPause_of_refused admitted s.totals] at recorder verdict events
      apply Act.rests
      · cases refusal : s.recorder.refusal s.table.maxRegions regions with
        | sumOverflow => exact absurd refusal other
        | _ =>
            simp [forgets, admitted?, verdict, refusal, Outcome.faulted, Except.map,
              Verdict.ofResult]
      · exact recorder
      · exact events.trans (Event.captured_nil p capture)
  | true =>
      have same := Recorder.beginPause_of_admits admitted s.totals
      rcases opened : s.totals.openPause p with ⟨fault | pauseId, counted⟩
      · obtain ⟨rfl, full⟩ := Totals.openPause_of_error opened
        rw [opened] at same
        rw [same] at recorder verdict events
        refine .exhausts regions ?_ ?_ full ?_ recorder ?_
        · simp [begun?, verdict, Outcome.faulted, Except.map, Verdict.ofResult]
        · simp [admitted?, verdict, Outcome.faulted, Except.map, Verdict.ofResult]
        · exact (Recorder.admits_iff.mp admitted full.1).1
        · exact events.trans (Event.captured_nil p capture)
      · rw [opened] at same
        rw [same] at recorder verdict events now
        refine .begins regions pauseId rfl ?_ ?_ ?_ recorder ?_
        · simp [begun?, verdict, now, Outcome.done, Except.map, Verdict.ofResult]
        · simp [admitted?, verdict, Outcome.done, Except.map, Verdict.ofResult]
        · exact fun checks => (Recorder.admits_iff.mp admitted checks).2
        · rw [Recorder.spanEnd_prepare] at events
          exact events

theorem act_sealPause (capture : Level) (linked : s.recorder.Linked) (nanos : UInt64) :
    Act p capture (Entry.of (fun s => s.step p capture) s (.sealPause nanos)) := by
  have recorder : s.recorderAfter p (.sealPause nanos) =
      (s.recorder.sealPause p nanos s.totals).state.1 := rfl
  have events : (s.step p capture (.sealPause nanos)).1.events =
      Event.captured p capture (s.recorder.sealPause p nanos s.totals).events :=
    events_step capture linked (.sealPause nanos)
  cases allowed : p.checks && s.recorder.phase != .recording with
  | true =>
      rw [Recorder.sealPause_of_refused allowed] at recorder events
      exact .rests rfl recorder (events.trans (Event.captured_nil p capture))
  | false =>
      rw [Recorder.sealPause_of_allowed allowed] at recorder events
      exact .seals nanos rfl allowed recorder events

/-- Every step is an act on the recorder in use. -/
theorem acts (capture : Level) (linked : s.recorder.Linked) (command : Command) :
    Act p capture (Entry.of (fun s => s.step p capture) s command) := by
  have events := events_step (p := p) capture linked command
  cases about : command.concern with
  | beginning regions =>
      cases command with
      | beginPause regions => exact act_beginPause capture linked regions
      | _ => cases about
  | sealing nanos =>
      cases command with
      | sealPause nanos => exact act_sealPause capture linked nanos
      | _ => cases about
  | recording indices =>
      rw [emitted, about] at events
      refine .records (s.recorder.winners p s.table indices) ?_ ?_ ?_ ?_ events
      · cases command <;> cases about <;> rfl
      · exact fun refused => Recorder.winners_of_refused refused s.table indices
      · rw [Entry.before_of, Entry.request_of, recorderAfter, about]
      · exact linked.entries_enlistAll p s.table indices
  | resetting =>
      cases command with
      | reset => exact .resets rfl rfl events
      | _ => cases about
  | table request =>
      cases command with
      | table request => exact .rests rfl rfl (events.trans (Event.captured_nil p capture))
      | _ => cases about
  | other =>
      rw [emitted, about] at events
      refine .rests ?_ ?_ (events.trans (Event.captured_nil p capture))
      · cases command <;> cases about <;> rfl
      · rw [Entry.before_of, Entry.request_of, recorderAfter, about]

/-- A step that seals a pause was allowed to, sums up what the recorder has listed, and changes nothing
of the recorder but its phase. -/
theorem sealed_step {command : Command} {summary : Summary}
    (sealed : sealed? (Entry.of (fun s => s.step p capture) s command) = some summary) :
    (p.checks && s.recorder.phase != .recording) = false ∧
      s.recorderAfter p command = { s.recorder with phase := .sealed } ∧
      ∃ nanos, summary =
        ⟨s.recorder.pauseId, s.recorder.journal.cursor, s.recorder.maxRegions, nanos⟩ := by
  cases command with
  | sealPause nanos =>
      have verdict := verdict_sealPause p capture s nanos
      have recorder : s.recorderAfter p (.sealPause nanos) =
          (s.recorder.sealPause p nanos s.totals).state.1 := rfl
      cases allowed : p.checks && s.recorder.phase != .recording with
      | true =>
          rw [Recorder.sealPause_of_refused allowed] at verdict
          simp [sealed?, verdict, Outcome.faulted, Except.map, Verdict.ofResult] at sealed
      | false =>
          rw [Recorder.sealPause_of_allowed allowed] at verdict recorder
          refine ⟨rfl, recorder, nanos, ?_⟩
          simpa [sealed?, verdict, Outcome.done, Except.map, Verdict.ofResult] using sealed.symm
  | _ => cases sealed

/-! ## One recorder through a run -/

/-- What every allowed act on a recorder keeps is kept by a run whose acts on that recorder are all
allowed, whatever becomes of the other recorders and of what they share. -/
theorem recorderAt_induction (Holds : Recorder → Prop)
    (Allowed : Entry (Session τ n m) Command Reply → Prop)
    (step : ∀ entry : Entry (Session τ n m) Command Reply, Act p capture entry → Allowed entry →
      Holds entry.before.recorder → Holds (entry.before.recorderAfter p entry.request))
    (linked : s.Linked) {k : Fin n} (start : Holds (s.recorderAt k)) (commands : List Command)
    (allowed : ∀ entry ∈ stepsOf k (transcript (fun s => s.step p capture) s commands),
      Allowed entry) :
    Holds ((s.run p capture commands).2.recorderAt k) := by
  rw [run_snd]
  refine (Transcript.induction
    (fun log now => (∀ entry ∈ stepsOf k log, Allowed entry) →
      Linked now ∧ Holds (recorderAt now k)) (fun _ => ⟨linked, start⟩) ?_ commands allowed).2
  intro log now command earlier allowed
  by_cases current : now.current = k
  · subst current
    have steps : stepsOf now.current (log ++ [Entry.of (fun s => s.step p capture) now command]) =
        stepsOf now.current log ++ [Entry.of (fun s => s.step p capture) now command] :=
      stepsOf_concat_self log (Entry.of (fun s => s.step p capture) now command)
    rw [steps, List.forall_mem_append, List.forall_mem_singleton] at allowed
    obtain ⟨linked, holds⟩ := earlier allowed.1
    refine ⟨linked.step command, ?_⟩
    rw [recorderAt_step p capture linked.recorder, if_pos rfl]
    exact step _ (acts capture linked.recorder command) allowed.2 holds
  · rw [stepsOf_concat_of_ne log (Entry.of (fun s => s.step p capture) now command) current]
      at allowed
    obtain ⟨linked, holds⟩ := earlier allowed
    refine ⟨linked.step command, ?_⟩
    rw [recorderAt_step p capture linked.recorder, if_neg current]
    exact holds

/-! ## Pauses that cannot be counted -/

section Counting

variable {tables : Vector (Table τ) m} {seat : Fin n → Fin m} {current : Fin n}
  {commands : List Command}

/-- As long as there are few pauses in a run, each step of it finds that they can be counted on. -/
theorem counts_of_mem
    (few : (pauseIds (transcript (fun s => s.step .debug capture) (start tables seat current)
      commands)).length < UInt64.size - 1)
    (member : entry ∈ transcript (fun s => s.step .debug capture) (start tables seat current)
      commands) : entry.before.totals.pauses + 1 ≠ 0 := by
  obtain ⟨earlier, now, command, reached, rfl, kept⟩ := Transcript.holds_of_mem
    (fun log now => (pauseIds log).length + 1 < UInt64.size → Kept log now)
    (fun _ => kept_start tables seat current) (fun _ _ command kept => kept_concat kept command) member
  have fewer := ((List.prefix_append earlier _).trans reached).filterMap begun? |>.length_le
  have fewer : (pauseIds earlier).length + 1 < UInt64.size := by
    unfold pauseIds at few ⊢
    omega
  exact (kept fewer).numbered.counts fewer

/-- A pause that the checks admit begins, as long as there are few pauses. -/
theorem begun_of_admitted
    (few : p.checks = true → (pauseIds (transcript (fun s => s.step p capture)
      (start tables seat current) commands)).length < UInt64.size - 1)
    (member : entry ∈ transcript (fun s => s.step p capture) (start tables seat current) commands)
    (admitted : admitted? entry ≠ none) : begun? entry ≠ none := by
  obtain ⟨_, now, command, _, rfl, linked⟩ := Transcript.holds_of_mem (fun _ now => Linked now)
    (linked_start tables seat current) (fun _ _ command h => h.step command) member
  cases acts (p := p) capture linked.recorder command with
  | begins _ _ _ begun => simp [begun]
  | exhausts _ _ _ full =>
      cases p with
      | debug => exact absurd full.2 (counts_of_mem (few rfl) member)
      | release => cases full.1
      | plain => cases full.1
  | records _ kept => exact absurd (admitted?_of_kept kept) admitted
  | seals _ kept => exact absurd (admitted?_of_kept kept) admitted
  | resets request =>
      obtain rfl : command = .reset := request
      exact absurd rfl admitted
  | rests kept => exact absurd (admitted?_of_kept kept) admitted

end Counting

/-! ## Pauses that are given up -/

/-- The commands that begin some pauses and give each of them up. -/
@[irreducible] def laps (n : Nat) : List Command :=
  (List.replicate n [.beginPause 0, .reset]).flatten

theorem mem_laps {n : Nat} {command : Command} (member : command ∈ laps n) :
    command = .beginPause 0 ∨ command = .reset := by
  obtain ⟨lap, repeated, inside⟩ := List.mem_flatten.mp (by rwa [laps] at member)
  rw [List.eq_of_mem_replicate repeated] at inside
  simpa using inside

/-- One recorder over a growing table, after so many laps. -/
def lapped (number : UInt64) : Session Plan 1 1 :=
  { shared 0 ⟨.growing 1, .ofSize 2⟩ with
    recorders := #v[{ Recorder.ofSize 1 with pauseId := number }]
    totals := ⟨number, 0, 0⟩ }

/-- A lap counts one pause, and leaves the rest as it was. -/
theorem run_lap {number : UInt64} (counts : number + 1 ≠ 0) :
    ((lapped number).run .debug .off [.beginPause 0, .reset]).2 = lapped (number + 1) := by
  have opened : (lapped number).totals.openPause .debug =
      (.ok (number + 1), ⟨number + 1, 0, 0⟩) := by
    simp [lapped, Totals.openPause, counts]
  have admitted : (lapped number).recorder.admits .debug (lapped number).table.maxRegions 0 = true :=
    rfl
  have begun := Recorder.beginPause_of_admits admitted (lapped number).totals
  rw [opened, Recorder.prepare_zero] at begun
  simp only [run, step, execute, accounting, begun]
  have blank : (RegionSet.empty 1).clear.clear = .empty 1 := by decide +kernel
  exact congrArg (fun failed : RegionSet => { lapped (number + 1) with
    recorders := #v[{ Recorder.ofSize 1 with failed, pauseId := number + 1 }] }) blank

/-- Laps count pauses up to the last number that a pause can have. -/
theorem run_laps {n : Nat} (numbered : n < UInt64.size) :
    ((lapped 0).run .debug .off (laps n)).2 = lapped (UInt64.ofNat n) := by
  induction n with
  | zero => simp [laps, run]
  | succ n ih =>
      have more : laps (n + 1) = laps n ++ [.beginPause 0, .reset] := by
        simp [laps, List.replicate_succ']
      have next : UInt64.ofNat n + 1 = UInt64.ofNat (n + 1) := (UInt64.ofNat_add n 1).symm
      have counts : UInt64.ofNat n + 1 ≠ 0 := by
        intro wrapped
        have zero := congrArg UInt64.toNat (next.symm.trans wrapped)
        rw [UInt64.toNat_ofNat_of_lt' numbered] at zero
        cases zero
      rw [more, run_append, ih (Nat.lt_of_succ_lt numbered), run_lap counts, next]

theorem run_laps_append {n : Nat} (numbered : n < UInt64.size) (commands : List Command) :
    ((lapped 0).run .debug .off (laps n ++ commands)).2 =
      ((lapped (UInt64.ofNat n)).run .debug .off commands).2 := by
  rw [run_append, run_laps numbered]

end Session

end Evacuation
