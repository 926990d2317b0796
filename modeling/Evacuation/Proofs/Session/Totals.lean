import Mathlib.Data.List.Infix
import Mathlib.Data.List.Perm.Subperm
import Evacuation.Proofs.Session.Steps

/-!
# Pauses and totals over a run of a session

All recorders of a session draw the numbers of their pauses from the same totals, and the totals count
the failures of a pause when it is sealed.  Over a run in a checking profile the pauses are numbered
without a gap, every summary belongs to the latest pause of its own recorder, and the totals are what
the summaries add up to.  Pauses that are given up and calls that fault count for nothing.

`Session.stages` says what one step does as far as pauses go; `Session.accounts_run` follows the pauses
through a run.
-/

namespace Evacuation

namespace Session

variable {τ : Type} {n m : Nat}

/-! ## What a log tells of pauses -/

def begun? (entry : Entry (Session τ n m) Command Reply) : Option UInt64 :=
  match entry.request, entry.answer.verdict with
  | .beginPause _, .answered _ => some entry.after.recorder.pauseId
  | _, _ => none

def sealed? (entry : Entry (Session τ n m) Command Reply) : Option Summary :=
  match entry.request, entry.answer.verdict with
  | .sealPause _, .answered (.summary summary) => some summary
  | _, _ => none

def pauseIds (log : List (Entry (Session τ n m) Command Reply)) : List UInt64 :=
  log.filterMap begun?

def summaries (log : List (Entry (Session τ n m) Command Reply)) : List Summary :=
  log.filterMap sealed?

def failedIn (log : List (Entry (Session τ n m) Command Reply)) : Nat :=
  (summaries log).foldl (fun total summary => total + summary.regionsFailed.toNat) 0

def stepsOf (k : Fin n) (log : List (Entry (Session τ n m) Command Reply)) :
    List (Entry (Session τ n m) Command Reply) :=
  log.filter fun entry => entry.before.current = k

def latestPause (k : Fin n) (log : List (Entry (Session τ n m) Command Reply)) : Option UInt64 :=
  (pauseIds (stepsOf k log)).getLast?

/-- The number of claims won on a recorder since its latest pause was begun. -/
def winsSince [Layout τ] (p : Profile) (k : Fin n)
    (log : List (Entry (Session τ n m) Command Reply)) : Nat :=
  Transcript.since (fun entry => (begun? entry).isSome)
    (fun entry => (entry.before.wonBy p entry.request).length) (stepsOf k log)

/-- The number of claims won in the pauses that are sealed in some steps, after earlier ones. -/
def sealedWins [Layout τ] (p : Profile) (earlier : List (Entry (Session τ n m) Command Reply)) :
    List (Entry (Session τ n m) Command Reply) → Nat
  | [] => 0
  | entry :: later =>
    (if (sealed? entry).isSome then winsSince p entry.before.current earlier else 0) +
      sealedWins p (earlier ++ [entry]) later

section Log

variable (log : List (Entry (Session τ n m) Command Reply))
  (entry : Entry (Session τ n m) Command Reply)

theorem pauseIds_concat : pauseIds (log ++ [entry]) = pauseIds log ++ (begun? entry).toList := by
  cases begun : begun? entry <;> simp [pauseIds, begun]

theorem summaries_concat : summaries (log ++ [entry]) = summaries log ++ (sealed? entry).toList := by
  cases summary : sealed? entry <;> simp [summaries, summary]

theorem failedIn_concat :
    failedIn (log ++ [entry]) =
      failedIn log + ((sealed? entry).map fun summary => summary.regionsFailed.toNat).getD 0 := by
  cases summary : sealed? entry <;> simp [failedIn, summaries_concat, summary]

theorem stepsOf_concat_self : stepsOf entry.before.current (log ++ [entry]) =
    stepsOf entry.before.current log ++ [entry] := by
  simp [stepsOf]

theorem stepsOf_concat_of_ne {k : Fin n} (apart : entry.before.current ≠ k) :
    stepsOf k (log ++ [entry]) = stepsOf k log := by
  simp [stepsOf, apart]

theorem latestPause_concat : latestPause entry.before.current (log ++ [entry]) =
    (begun? entry).or (latestPause entry.before.current log) := by
  rw [latestPause, stepsOf_concat_self, pauseIds_concat]
  cases begun? entry <;> simp [latestPause]

theorem winsSince_concat [Layout τ] (p : Profile) :
    winsSince p entry.before.current (log ++ [entry]) =
      if (begun? entry).isSome then 0
      else winsSince p entry.before.current log +
        (entry.before.wonBy p entry.request).length := by
  rw [winsSince, stepsOf_concat_self, Transcript.since_concat]
  rfl

theorem sealedWins_concat [Layout τ] (p : Profile)
    (earlier : List (Entry (Session τ n m) Command Reply)) :
    sealedWins p earlier (log ++ [entry]) =
      sealedWins p earlier log +
        if (sealed? entry).isSome then winsSince p entry.before.current (earlier ++ log) else 0 := by
  induction log generalizing earlier with
  | nil => simp [sealedWins]
  | cons first rest ih => simp [sealedWins, ih, Nat.add_assoc]

theorem mem_pauseIds_of_latestPause {log : List (Entry (Session τ n m) Command Reply)} {k : Fin n}
    {id : UInt64} (latest : latestPause k log = some id) : id ∈ pauseIds log := by
  have own : id ∈ pauseIds (stepsOf k log) := List.mem_of_getLast? latest
  obtain ⟨entry, member, begun⟩ := List.mem_filterMap.mp own
  exact List.mem_filterMap.mpr ⟨entry, List.mem_of_mem_filter member, begun⟩

end Log

/-! ## One step -/

variable [Layout τ]

/-- What a step can be as far as pauses go. -/
inductive Stage (entry : Entry (Session τ n m) Command Reply) : Prop where
  | begins
      (begun : begun? entry = some (entry.before.totals.pauses + 1))
      (unsealed : sealed? entry = none)
      (pauseId : (entry.before.recorderAfter .debug entry.request).pauseId =
        entry.before.totals.pauses + 1)
      (unlisted : (entry.before.recorderAfter .debug entry.request).journal.length = 0)
      (totals : entry.before.totalsAfter .debug entry.request =
        { entry.before.totals with pauses := entry.before.totals.pauses + 1 })
  | seals (summary : Summary)
      (unbegun : begun? entry = none)
      (sealed : sealed? entry = some summary)
      (recording : entry.before.recorder.phase = .recording)
      (pauseId : summary.pauseId = entry.before.recorder.pauseId)
      (regionsFailed : summary.regionsFailed.toNat = entry.before.recorder.journal.length)
      (ended : (entry.before.recorderAfter .debug entry.request).phase ≠ .recording)
      (totals : entry.before.totalsAfter .debug entry.request = entry.before.totals.add summary)
  | passes
      (unbegun : begun? entry = none)
      (unsealed : sealed? entry = none)
      (goes : (entry.before.recorderAfter .debug entry.request).phase = .recording →
        entry.before.recorder.phase = .recording ∧
          (entry.before.recorderAfter .debug entry.request).pauseId =
            entry.before.recorder.pauseId ∧
          (entry.before.recorderAfter .debug entry.request).journal.length =
            entry.before.recorder.journal.length +
              (entry.before.wonBy .debug entry.request).length)
      (totals : entry.before.totalsAfter .debug entry.request = entry.before.totals)

variable {capture : Level} {s : Session τ n m} {entry : Entry (Session τ n m) Command Reply}

/-- A step that leaves recorder and totals alone lets the pause pass. -/
theorem Stage.idle (unbegun : begun? entry = none) (unsealed : sealed? entry = none)
    (recorder : entry.before.recorderAfter .debug entry.request = entry.before.recorder)
    (won : entry.before.wonBy .debug entry.request = [])
    (totals : entry.before.totalsAfter .debug entry.request = entry.before.totals) :
    Stage entry := by
  refine .passes unbegun unsealed ?_ totals
  rw [recorder, won]
  exact fun recording => ⟨recording, rfl, rfl⟩

theorem stage_beginPause (capture : Level) (linked : s.recorder.Linked)
    (counts : s.totals.pauses + 1 ≠ 0) (regions : UInt32) :
    Stage (Entry.of (fun s => s.step .debug capture) s (.beginPause regions)) := by
  have recorder : s.recorderAfter .debug (.beginPause regions) =
      (s.recorder.beginPause .debug s.table.maxRegions regions s.totals).state.1 := rfl
  have totals : s.totalsAfter .debug (.beginPause regions) =
      (s.recorder.beginPause .debug s.table.maxRegions regions s.totals).state.2 := rfl
  have verdict := verdict_beginPause .debug capture s regions
  cases result : (s.recorder.beginPause .debug s.table.maxRegions regions s.totals).result with
  | ok =>
      have opened := linked.opened result
      have state := Recorder.beginPause_of_ok result
      have now : (s.step .debug capture (.beginPause regions)).2.recorder =
          (s.recorder.beginPause .debug s.table.maxRegions regions s.totals).state.1 :=
        s.recorder_withRecorder _
      refine .begins ?_ ?_ ?_ ?_ ?_
      · simp [begun?, verdict, result, now, state, Except.map, Verdict.ofResult]
      · rfl
      · rw [Entry.before_of, Entry.request_of, recorder, state]
      · rw [Entry.before_of, Entry.request_of, recorder, Journal.length, opened.unlisted]
        rfl
      · rw [Entry.before_of, Entry.request_of, totals, state]
  | error fault =>
      have unbegun :
          begun? (Entry.of (fun s => s.step .debug capture) s (.beginPause regions)) = none := by
        simp [begun?, verdict, result, Except.map, Verdict.ofResult]
      obtain ⟨_, same⟩ | ⟨_, _, counted, _⟩ | ⟨_, _, _, same⟩ :=
        Recorder.beginPause_cases .debug s.table.maxRegions regions s.recorder s.totals
      · rw [same] at recorder totals
        exact .idle unbegun rfl recorder rfl totals
      · simp [Totals.openPause, Profile.checks, counts] at counted
      · rw [same] at result
        cases result

theorem stage_sealPause (capture : Level) (nanos : UInt64) :
    Stage (Entry.of (fun s => s.step .debug capture) s (.sealPause nanos)) := by
  have recorder : s.recorderAfter .debug (.sealPause nanos) =
      (s.recorder.sealPause .debug nanos s.totals).state.1 := rfl
  have totals : s.totalsAfter .debug (.sealPause nanos) =
      (s.recorder.sealPause .debug nanos s.totals).state.2 := rfl
  have verdict := verdict_sealPause .debug capture s nanos
  by_cases recording : s.recorder.phase = .recording
  · obtain ⟨result, state⟩ := Recorder.sealPause_of_recording .debug nanos s.totals recording
    refine .seals ⟨s.recorder.pauseId, s.recorder.journal.cursor, s.recorder.maxRegions, nanos⟩
      rfl ?_ recording rfl rfl ?_ ?_
    · simp [sealed?, verdict, result, Except.map, Verdict.ofResult]
    · rw [Entry.before_of, Entry.request_of, recorder, state]
      nofun
    · rw [Entry.before_of, Entry.request_of, totals, state]
  · have refused : (Profile.debug.checks && s.recorder.phase != .recording) = true := by
      simp [Profile.checks, recording]
    rw [Recorder.sealPause_of_refused refused] at recorder totals verdict
    refine .idle rfl ?_ recorder rfl totals
    simp [sealed?, verdict, Outcome.faulted, Except.map, Verdict.ofResult]

theorem stages (capture : Level) (linked : s.recorder.Linked)
    (counts : s.totals.pauses + 1 ≠ 0) (command : Command) :
    Stage (Entry.of (fun s => s.step .debug capture) s command) := by
  cases about : command.concern with
  | beginning regions =>
      cases command with
      | beginPause regions => exact stage_beginPause capture linked counts regions
      | _ => cases about
  | sealing nanos =>
      cases command with
      | sealPause nanos => exact stage_sealPause capture nanos
      | _ => cases about
  | recording indices =>
      have won : s.wonBy .debug command = s.recorder.winners .debug s.table indices := by
        rw [wonBy, about]
      have recorder : s.recorderAfter .debug command =
          s.recorder.enlistAll (s.wonBy .debug command) := by
        rw [recorderAfter, won, about]
      refine .passes ?_ ?_ ?_ ?_
      · cases command <;> cases about <;> rfl
      · cases command <;> cases about <;> rfl
      · rw [Entry.before_of, Entry.request_of, recorder, Recorder.phase_enlistAll,
          Recorder.pauseId_enlistAll, won]
        exact fun recording => ⟨recording, rfl, (linked.enlistAll .debug s.table indices).2⟩
      · rw [Entry.before_of, Entry.request_of, totalsAfter, about]
  | resetting =>
      cases command with
      | reset => exact .passes rfl rfl (fun recording => by cases recording) rfl
      | _ => cases about
  | table request =>
      cases command with
      | table request => exact .idle rfl rfl rfl rfl rfl
      | _ => cases about
  | other =>
      refine .idle ?_ ?_ ?_ ?_ ?_
      · cases command <;> cases about <;> rfl
      · cases command <;> cases about <;> rfl
      · rw [Entry.before_of, Entry.request_of, recorderAfter, about]
      · rw [Entry.before_of, Entry.request_of, wonBy, about]
      · rw [Entry.before_of, Entry.request_of, totalsAfter, about]

/-! ## The numbers of the pauses -/

variable {log : List (Entry (Session τ n m) Command Reply)}

/-- The pauses of a log are numbered from one on, and the totals count them. -/
structure Numbered (log : List (Entry (Session τ n m) Command Reply)) (totals : Totals) : Prop where
  ids : (pauseIds log).map UInt64.toNat = List.range' 1 (pauseIds log).length
  pauses : totals.pauses.toNat = (pauseIds log).length

omit [Layout τ] in
theorem Numbered.le_pauses {totals : Totals} (h : Numbered log totals) {id : UInt64}
    (begun : id ∈ pauseIds log) : id.toNat ≤ totals.pauses.toNat := by
  have member : id.toNat ∈ (pauseIds log).map UInt64.toNat := List.mem_map_of_mem begun
  rw [h.ids, List.mem_range'_1] at member
  rw [h.pauses]
  omega

omit [Layout τ] in
theorem Numbered.toNat_next {totals : Totals} (h : Numbered log totals)
    (few : (pauseIds log).length + 1 < UInt64.size) :
    (totals.pauses + 1).toNat = totals.pauses.toNat + 1 := by
  rw [UInt64.toNat_add, h.pauses]
  exact Nat.mod_eq_of_lt few

omit [Layout τ] in
/-- While pauses are few, the next one can be counted. -/
theorem Numbered.counts {totals : Totals} (h : Numbered log totals)
    (few : (pauseIds log).length + 1 < UInt64.size) : totals.pauses + 1 ≠ 0 := by
  intro wrapped
  have next := h.toNat_next few
  rw [wrapped] at next
  exact Nat.succ_ne_zero _ next.symm

theorem Stage.numbered (stage : Stage entry) (h : Numbered log entry.before.totals)
    (few : (pauseIds log).length + 1 < UInt64.size) :
    Numbered (log ++ [entry]) (entry.before.totalsAfter .debug entry.request) := by
  have next : (entry.before.totals.pauses + 1).toNat = (pauseIds log).length + 1 := by
    rw [UInt64.toNat_add, h.pauses]
    exact Nat.mod_eq_of_lt few
  have quiet (unbegun : begun? entry = none)
      (pauses : (entry.before.totalsAfter .debug entry.request).pauses =
        entry.before.totals.pauses) :
      Numbered (log ++ [entry]) (entry.before.totalsAfter .debug entry.request) := by
    have ids : pauseIds (log ++ [entry]) = pauseIds log := by
      rw [pauseIds_concat, unbegun, Option.toList_none, List.append_nil]
    refine ⟨?_, ?_⟩
    · rw [ids, h.ids]
    · rw [pauses, ids, h.pauses]
  cases stage with
  | begins begun _ _ _ totals =>
      have ids : pauseIds (log ++ [entry]) = pauseIds log ++ [entry.before.totals.pauses + 1] := by
        rw [pauseIds_concat, begun]
        rfl
      refine ⟨?_, ?_⟩
      · rw [ids, List.map_append, h.ids, List.length_append, List.length_singleton,
          List.range'_1_concat, List.map_singleton, next, Nat.add_comm 1]
      · rw [totals, ids, List.length_append]
        exact next
  | seals summary unbegun _ _ _ _ _ totals =>
      exact quiet unbegun (by rw [totals, Totals.pauses_add])
  | passes unbegun _ _ totals => exact quiet unbegun (by rw [totals])

/-! ## The sums of the summaries -/

structure Summed (log : List (Entry (Session τ n m) Command Reply)) (totals : Totals) : Prop where
  pausesWithFailures : totals.pausesWithFailures =
    UInt64.ofNat ((summaries log).countP Summary.evacuationFailed)
  regionsFailed : totals.regionsFailed = UInt64.ofNat (failedIn log)

theorem Stage.summed (stage : Stage entry) (h : Summed log entry.before.totals) :
    Summed (log ++ [entry]) (entry.before.totalsAfter .debug entry.request) := by
  have quiet (unsealed : sealed? entry = none)
      (failures : (entry.before.totalsAfter .debug entry.request).pausesWithFailures =
        entry.before.totals.pausesWithFailures)
      (regions : (entry.before.totalsAfter .debug entry.request).regionsFailed =
        entry.before.totals.regionsFailed) :
      Summed (log ++ [entry]) (entry.before.totalsAfter .debug entry.request) := by
    refine ⟨?_, ?_⟩
    · rw [failures, summaries_concat, unsealed, Option.toList_none, List.append_nil]
      exact h.pausesWithFailures
    · rw [regions, failedIn_concat, unsealed]
      exact h.regionsFailed
  cases stage with
  | begins _ unsealed _ _ totals => exact quiet unsealed (by rw [totals]) (by rw [totals])
  | passes _ unsealed _ totals => exact quiet unsealed (by rw [totals]) (by rw [totals])
  | seals summary _ sealed _ _ _ _ totals =>
      refine ⟨?_, ?_⟩
      · rw [totals, Totals.pausesWithFailures_add, h.pausesWithFailures, summaries_concat, sealed,
          Option.toList_some, List.countP_append, List.countP_singleton, UInt64.ofNat_add]
        cases summary.evacuationFailed <;> rfl
      · rw [totals, Totals.regionsFailed_add, h.regionsFailed, failedIn_concat, sealed,
          Option.map_some, Option.getD_some, UInt64.ofNat_add, UInt64.ofNat_toNat]

/-! ## Summaries and their pauses -/

/-- A pause that a recorder is recording is its latest, has its wins listed, and is not sealed. -/
structure Going (log : List (Entry (Session τ n m) Command Reply)) (k : Fin n) (r : Recorder) :
    Prop where
  latest : latestPause k log = some r.pauseId
  wins : winsSince .debug k log = r.journal.length
  unsealed : r.pauseId ∉ (summaries log).map Summary.pauseId

/-- If a step seals a pause, the summary is that of the latest pause of its recorder after the earlier
steps, and counts the claims won in it. -/
def Own (earlier : List (Entry (Session τ n m) Command Reply))
    (entry : Entry (Session τ n m) Command Reply) : Prop :=
  ∀ summary, sealed? entry = some summary →
    latestPause entry.before.current earlier = some summary.pauseId ∧
      summary.regionsFailed.toNat = winsSince .debug entry.before.current earlier

structure Owned (log : List (Entry (Session τ n m) Command Reply)) (s : Session τ n m) : Prop where
  going : ∀ k : Fin n, (s.recorderAt k).phase = .recording → Going log k (s.recorderAt k)
  apart : ∀ j k : Fin n, (s.recorderAt j).phase = .recording →
    (s.recorderAt k).phase = .recording →
      (s.recorderAt j).pauseId = (s.recorderAt k).pauseId → j = k
  sealedIds : ((summaries log).map Summary.pauseId).Nodup
  begun : ∀ id ∈ (summaries log).map Summary.pauseId, id ∈ pauseIds log
  own : ∀ earlier entry, earlier ++ [entry] <+: log → Own earlier entry
  wins : failedIn log = sealedWins .debug [] log

theorem Stage.of_sealed (stage : Stage entry) {summary : Summary}
    (sealed : sealed? entry = some summary) :
    entry.before.recorder.phase = .recording ∧
      summary.pauseId = entry.before.recorder.pauseId ∧
      summary.regionsFailed.toNat = entry.before.recorder.journal.length := by
  cases stage with
  | begins _ unsealed =>
      rw [unsealed] at sealed
      cases sealed
  | seals other _ same recording pauseId regionsFailed =>
      obtain rfl := Option.some.inj (same.symm.trans sealed)
      exact ⟨recording, pauseId, regionsFailed⟩
  | passes _ unsealed =>
      rw [unsealed] at sealed
      cases sealed

/-- A step on another recorder leaves a pause going on, unless it seals a pause of the same number. -/
theorem Going.other {k : Fin n} {r : Recorder} (h : Going log k r) (apart : entry.before.current ≠ k)
    (kept : ∀ summary, sealed? entry = some summary → summary.pauseId ≠ r.pauseId) :
    Going (log ++ [entry]) k r := by
  refine ⟨?_, ?_, ?_⟩
  · rw [latestPause, stepsOf_concat_of_ne _ _ apart]
    exact h.latest
  · rw [winsSince, stepsOf_concat_of_ne _ _ apart]
    exact h.wins
  · rw [summaries_concat, List.map_append, List.mem_append, not_or]
    refine ⟨h.unsealed, ?_⟩
    cases sealed : sealed? entry with
    | none => simp
    | some summary => simpa using (kept summary sealed).symm

namespace Owned

theorem last (h : Owned log entry.before) (stage : Stage entry) : Own log entry := by
  intro summary sealed
  obtain ⟨recording, pauseId, regionsFailed⟩ := stage.of_sealed sealed
  have going := h.going entry.before.current recording
  exact ⟨going.latest.trans (congrArg some pauseId.symm), regionsFailed.trans going.wins.symm⟩

/-- The pause of the recorder in use goes on after a step, if it is being recorded then. -/
theorem going_current (h : Owned log entry.before) (numbered : Numbered log entry.before.totals)
    (next : (entry.before.totals.pauses + 1).toNat = entry.before.totals.pauses.toNat + 1)
    (stage : Stage entry)
    (recording : (entry.before.recorderAfter .debug entry.request).phase = .recording) :
    Going (log ++ [entry]) entry.before.current
      (entry.before.recorderAfter .debug entry.request) := by
  cases stage with
  | begins begun unsealed pauseId unlisted =>
      refine ⟨?_, ?_, ?_⟩
      · rw [latestPause_concat, begun, pauseId]
        rfl
      · rw [winsSince_concat, begun, unlisted]
        rfl
      · rw [summaries_concat, unsealed, Option.toList_none, List.append_nil, pauseId]
        intro sealed
        have bound := numbered.le_pauses (h.begun _ sealed)
        omega
  | seals _ _ _ _ _ _ ended => exact absurd recording ended
  | passes unbegun unsealed goes =>
      obtain ⟨before, pauseId, listed⟩ := goes recording
      have going := h.going entry.before.current before
      refine ⟨?_, ?_, ?_⟩
      · rw [latestPause_concat, unbegun, Option.none_or, pauseId]
        exact going.latest
      · rw [winsSince_concat, unbegun, listed]
        exact congrArg (· + _) going.wins
      · rw [summaries_concat, unsealed, Option.toList_none, List.append_nil, pauseId]
        exact going.unsealed

/-- After a step the recorder in use shares its pause with no other. -/
theorem pauseId_ne (h : Owned log entry.before) (numbered : Numbered log entry.before.totals)
    (next : (entry.before.totals.pauses + 1).toNat = entry.before.totals.pauses.toNat + 1)
    (stage : Stage entry)
    (recording : (entry.before.recorderAfter .debug entry.request).phase = .recording) {k : Fin n}
    (other : entry.before.current ≠ k) (both : (entry.before.recorderAt k).phase = .recording) :
    (entry.before.recorderAfter .debug entry.request).pauseId ≠
      (entry.before.recorderAt k).pauseId := by
  intro same
  cases stage with
  | begins _ _ pauseId =>
      have bound := numbered.le_pauses (mem_pauseIds_of_latestPause (h.going k both).latest)
      rw [← same, pauseId, next] at bound
      omega
  | seals _ _ _ _ _ _ ended => exact ended recording
  | passes _ _ goes =>
      obtain ⟨before, pauseId, _⟩ := goes recording
      exact other (h.apart _ _ before both (pauseId.symm.trans same))

end Owned

theorem Stage.owned (stage : Stage entry) (h : Owned log entry.before)
    (numbered : Numbered log entry.before.totals)
    (next : (entry.before.totals.pauses + 1).toNat = entry.before.totals.pauses.toNat + 1)
    (after : ∀ k : Fin n, entry.after.recorderAt k =
      if entry.before.current = k then entry.before.recorderAfter .debug entry.request
      else entry.before.recorderAt k) :
    Owned (log ++ [entry]) entry.after where
  going := by
    intro k recording
    rw [after] at recording ⊢
    by_cases same : entry.before.current = k
    · subst same
      rw [if_pos rfl] at recording ⊢
      exact h.going_current numbered next stage recording
    · rw [if_neg same] at recording ⊢
      refine (h.going k recording).other same ?_
      intro summary sealed clash
      obtain ⟨before, pauseId, _⟩ := stage.of_sealed sealed
      exact same (h.apart _ _ before recording (pauseId.symm.trans clash))
  apart := by
    intro j k
    rw [after, after]
    by_cases left : entry.before.current = j <;> by_cases right : entry.before.current = k
    · exact fun _ _ _ => left.symm.trans right
    · rw [if_pos left, if_neg right]
      exact fun recording both same =>
        absurd same (h.pauseId_ne numbered next stage recording right both)
    · rw [if_neg left, if_pos right]
      exact fun both recording same =>
        absurd same.symm (h.pauseId_ne numbered next stage recording left both)
    · rw [if_neg left, if_neg right]
      exact h.apart j k
  sealedIds := by
    rw [summaries_concat, List.map_append]
    cases sealed : sealed? entry with
    | none => simpa using h.sealedIds
    | some summary =>
        obtain ⟨recording, pauseId, _⟩ := stage.of_sealed sealed
        have unsealed := (h.going entry.before.current recording).unsealed
        refine List.nodup_append.mpr ⟨h.sealedIds, List.nodup_singleton summary.pauseId, ?_⟩
        intro id earlier last now same
        rw [List.mem_singleton.mp now, pauseId] at same
        exact unsealed (same ▸ earlier)
  begun := by
    intro id member
    rw [pauseIds_concat]
    rw [summaries_concat, List.map_append] at member
    refine List.mem_append_left _ ?_
    rcases List.mem_append.mp member with earlier | now
    · exact h.begun id earlier
    · obtain ⟨summary, sealed, rfl⟩ := List.mem_map.mp now
      exact mem_pauseIds_of_latestPause (h.last stage summary (Option.mem_toList.mp sealed)).1
  own := by
    intro earlier later reached
    rcases List.prefix_concat_iff.mp reached with last | within
    · obtain ⟨rfl, rfl⟩ := List.append_singleton_inj.mp last
      exact h.last stage
    · exact h.own earlier later within
  wins := by
    rw [failedIn_concat, sealedWins_concat, h.wins]
    cases sealed : sealed? entry with
    | none => rfl
    | some summary => exact congrArg _ (h.last stage summary sealed).2

/-! ## Runs -/

/-- Only beginning a pause counts it, and only sealing one counts its failures. -/
def Uncounted (entry : Entry (Session τ n m) Command Reply) : Prop :=
  (begun? entry = none → entry.after.totals.pauses = entry.before.totals.pauses) ∧
    (sealed? entry = none →
      entry.after.totals.pausesWithFailures = entry.before.totals.pausesWithFailures ∧
        entry.after.totals.regionsFailed = entry.before.totals.regionsFailed)

theorem Stage.uncounted (stage : Stage entry)
    (after : entry.after.totals = entry.before.totalsAfter .debug entry.request) :
    Uncounted entry := by
  unfold Uncounted
  rw [after]
  cases stage with
  | begins begun _ _ _ totals =>
      rw [totals, begun]
      exact ⟨nofun, fun _ => ⟨rfl, rfl⟩⟩
  | seals summary _ sealed _ _ _ _ totals =>
      rw [totals, sealed]
      exact ⟨fun _ => Totals.pauses_add _ summary, nofun⟩
  | passes _ _ _ totals =>
      rw [totals]
      exact ⟨fun _ => rfl, fun _ => ⟨rfl, rfl⟩⟩

/-- The numbers of the pauses, the summaries and the totals agree. -/
structure Accounts (log : List (Entry (Session τ n m) Command Reply)) (totals : Totals) : Prop where
  ids : (pauseIds log).map UInt64.toNat = List.range' 1 (pauseIds log).length
  pauses : totals.pauses.toNat = (pauseIds log).length
  sealedIds : ((summaries log).map Summary.pauseId).Nodup
  own : ∀ earlier entry, earlier ++ [entry] <+: log → Own earlier entry
  pausesWithFailures :
    totals.pausesWithFailures.toNat = (summaries log).countP Summary.evacuationFailed
  regionsFailed : totals.regionsFailed.toNat = failedIn log
  wins : failedIn log = sealedWins .debug [] log
  pausesWithFailures_le_pauses : totals.pausesWithFailures ≤ totals.pauses
  pausesWithFailures_le_regionsFailed : totals.pausesWithFailures ≤ totals.regionsFailed
  uncounted : ∀ entry ∈ log, Uncounted entry

structure Kept (log : List (Entry (Session τ n m) Command Reply)) (s : Session τ n m) : Prop where
  linked : s.Linked
  numbered : Numbered log s.totals
  summed : Summed log s.totals
  owned : Owned log s
  uncounted : ∀ entry ∈ log, Uncounted entry

theorem kept_start (tables : Vector (Table τ) m) (seat : Fin n → Fin m) (current : Fin n) :
    Kept [] (start tables seat current) where
  linked := linked_start tables seat current
  numbered := ⟨rfl, rfl⟩
  summed := ⟨rfl, rfl⟩
  owned :=
    have idle (k : Fin n) : ((start tables seat current).recorderAt k).phase ≠ .recording := by
      rw [recorderAt_start]
      nofun
    { going := fun k recording => absurd recording (idle k)
      apart := fun j _ recording => absurd recording (idle j)
      sealedIds := List.nodup_nil
      begun := fun id member => absurd member List.not_mem_nil
      own := fun earlier entry reached => by simp at reached
      wins := rfl }
  uncounted := fun _ member => absurd member List.not_mem_nil

theorem Kept.step (h : Kept log s) (few : (pauseIds log).length + 1 < UInt64.size)
    (command : Command) :
    Kept (log ++ [Entry.of (fun s => s.step .debug capture) s command])
      (s.step .debug capture command).2 := by
  have stage := stages capture h.linked.recorder (h.numbered.counts few) command
  have totals := totals_step .debug capture h.linked.recorder command
  refine ⟨h.linked.step command, ?_, ?_, ?_, ?_⟩
  · rw [totals]
    exact stage.numbered h.numbered few
  · rw [totals]
    exact stage.summed h.summed
  · exact stage.owned h.owned h.numbered (h.numbered.toNat_next few)
      (recorderAt_step .debug capture h.linked.recorder command)
  · exact List.forall_mem_append.mpr
      ⟨h.uncounted, List.forall_mem_singleton.mpr (stage.uncounted totals)⟩

/-- What is kept while pauses are few is kept by one more step. -/
theorem kept_concat (kept : (pauseIds log).length + 1 < UInt64.size → Kept log s) (command : Command)
    (few : (pauseIds (log ++ [Entry.of (fun s => s.step .debug capture) s command])).length + 1 <
      UInt64.size) :
    Kept (log ++ [Entry.of (fun s => s.step .debug capture) s command])
      (s.step .debug capture command).2 := by
  have fewer : (pauseIds log).length + 1 < UInt64.size := by
    rw [pauseIds_concat, List.length_append] at few
    omega
  exact (kept fewer).step fewer command

/-- The pauses of a run are accounted for as long as there are few of them. -/
theorem kept_run {tables : Vector (Table τ) m} {seat : Fin n → Fin m} {current : Fin n}
    {commands : List Command}
    (few : (pauseIds (transcript (fun s => s.step .debug capture) (start tables seat current)
      commands)).length < UInt64.size - 1) :
    Kept (transcript (fun s => s.step .debug capture) (start tables seat current) commands)
      ((start tables seat current).run .debug capture commands).2 := by
  rw [run_snd]
  exact Transcript.induction
    (fun log now => (pauseIds log).length + 1 < UInt64.size → Kept log now)
    (fun _ => kept_start tables seat current) (fun _ _ command kept => kept_concat kept command)
    commands (by omega)

/-- At most as many pauses had failures as regions failed in them. -/
theorem countP_le_failed (sealed : List Summary) :
    sealed.countP Summary.evacuationFailed ≤
      sealed.foldl (fun total summary => total + summary.regionsFailed.toNat) 0 := by
  induction sealed using List.reverseRecOn with
  | nil => exact Nat.le_refl 0
  | append_singleton sealed summary ih =>
      rw [List.countP_append, List.countP_singleton, List.foldl_append]
      refine Nat.add_le_add ih ?_
      split
      · next failed => exact UInt64.lt_iff_toNat_lt.mp (of_decide_eq_true failed)
      · exact Nat.zero_le _

theorem Owned.countP_le (h : Owned log s) :
    (summaries log).countP Summary.evacuationFailed ≤ (pauseIds log).length := by
  have fewer := (h.sealedIds.subperm h.begun).length_le
  rw [List.length_map] at fewer
  exact Nat.le_trans List.countP_le_length fewer

theorem Kept.toNat_pausesWithFailures (h : Kept log s) (few : (pauseIds log).length < UInt64.size) :
    s.totals.pausesWithFailures.toNat = (summaries log).countP Summary.evacuationFailed := by
  rw [h.summed.pausesWithFailures]
  exact UInt64.toNat_ofNat_of_lt' (Nat.lt_of_le_of_lt h.owned.countP_le few)

theorem Kept.toNat_regionsFailed (h : Kept log s) (failures : failedIn log < UInt64.size) :
    s.totals.regionsFailed.toNat = failedIn log := by
  rw [h.summed.regionsFailed]
  exact UInt64.toNat_ofNat_of_lt' failures

theorem Kept.accounts (h : Kept log s) (few : (pauseIds log).length < UInt64.size)
    (failures : failedIn log < UInt64.size) : Accounts log s.totals where
  ids := h.numbered.ids
  pauses := h.numbered.pauses
  sealedIds := h.owned.sealedIds
  own := h.owned.own
  pausesWithFailures := h.toNat_pausesWithFailures few
  regionsFailed := h.toNat_regionsFailed failures
  wins := h.owned.wins
  pausesWithFailures_le_pauses := by
    rw [UInt64.le_iff_toNat_le, h.numbered.pauses, h.toNat_pausesWithFailures few]
    exact h.owned.countP_le
  pausesWithFailures_le_regionsFailed := by
    rw [UInt64.le_iff_toNat_le, h.toNat_pausesWithFailures few, h.toNat_regionsFailed failures]
    exact countP_le_failed (summaries log)
  uncounted := h.uncounted

/-- In a checking profile, over every run on any number of recorders, as long as the pauses and the
failed regions can be counted: the pauses are numbered in order, every summary is that of the latest
pause of its own recorder and counts the claims won in it, and the totals add up the summaries. -/
theorem accounts_run (capture : Level) (tables : Vector (Table τ) m) (seat : Fin n → Fin m)
    (current : Fin n) (commands : List Command)
    (few : (pauseIds (transcript (fun s => s.step .debug capture) (start tables seat current)
      commands)).length < UInt64.size - 1)
    (failures : failedIn (transcript (fun s => s.step .debug capture) (start tables seat current)
      commands) < UInt64.size) :
    Accounts (transcript (fun s => s.step .debug capture) (start tables seat current) commands)
      ((start tables seat current).run .debug capture commands).2.totals := by
  exact (kept_run few).accounts (by omega) failures

/-- Two recorders that share a table: the first pause is given up, and some calls are refused. -/
theorem accounts_run_two_recorders :
    let commands : List Command :=
      [.beginPause 3, .record 1, .use 1, .beginPause 3, .beginPause 3, .recordAll [2, 0, 2],
        .sealPause 5, .use 0, .reset, .sealPause 6, .beginPause 4, .beginPause 3, .record 2,
        .sealPause 7]
    let s : Session Plan 2 1 := start #v[.ofSize 3] (fun _ => 0) 0
    let log := transcript (fun s => s.step .debug .info) s commands
    let totals := (s.run .debug .info commands).2.totals
    (pauseIds log).length < UInt64.size - 1 ∧ failedIn log < UInt64.size ∧ Accounts log totals ∧
      (summaries log).map (fun summary => (summary.pauseId, summary.regionsFailed)) =
        [(2, 2), (3, 1)] ∧
      totals = ⟨3, 2, 3⟩ := by
  intro commands s log totals
  have few : (pauseIds log).length < UInt64.size - 1 := by decide +kernel
  have failures : failedIn log < UInt64.size := by decide +kernel
  refine ⟨few, failures, ?_, by decide +kernel, by decide +kernel⟩
  unfold log totals s
  exact accounts_run .info _ _ _ commands few failures

end Session

end Evacuation
