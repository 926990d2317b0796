import Evacuation.Proofs.Session.Acts

/-!
# Pauses that are given up

The totals count a pause when it is begun.  In a checking profile there are two ways for it to end: it
is sealed, or its recorder is reset while it is recording, and then it is given up with no summary.

`Session.balanced_step` is one step, and `Session.settles_run` accounts for the pauses of a run.
-/

namespace Evacuation

theorem countP_cons_toNat {α : Type} (f : α → Bool) (first : α) (rest : List α) :
    (first :: rest).countP f = rest.countP f + (f first).toNat := by
  cases answer : f first <;> simp [answer]

/-- Changing the answer for one member changes the count by that answer alone. -/
theorem countP_of_change {α : Type} {f g : α → Bool} {changed : α} {members : List α}
    (nodup : members.Nodup) (member : changed ∈ members)
    (same : ∀ other, other ≠ changed → g other = f other) :
    members.countP g + (f changed).toNat = members.countP f + (g changed).toNat := by
  induction members with
  | nil => cases member
  | cons first rest ih =>
      obtain ⟨apart, nodup⟩ := List.nodup_cons.mp nodup
      rw [countP_cons_toNat, countP_cons_toNat]
      by_cases here : first = changed
      · subst here
        have others : rest.countP g = rest.countP f :=
          List.countP_congr fun x inside => by
            rw [same x fun same => apart (same ▸ inside)]
        omega
      · have later : changed ∈ rest := (List.mem_cons.mp member).resolve_left (Ne.symm here)
        have ih := ih nodup later
        rw [same first here]
        omega

namespace Session

variable {τ : Type} {n m : Nat}

def givesUp (entry : Entry (Session τ n m) Command Reply) : Bool :=
  decide (entry.request = .reset) && decide (entry.before.recorder.phase = .recording)

def recordings (s : Session τ n m) : Nat :=
  (List.finRange n).countP fun k => decide ((s.recorderAt k).phase = .recording)

theorem recordings_eq_zero {s : Session τ n m} :
    s.recordings = 0 ↔ ∀ k, (s.recorderAt k).phase ≠ .recording := by
  simp [recordings, List.countP_eq_zero]

variable [Layout τ] {capture : Level} {s : Session τ n m}
  {log : List (Entry (Session τ n m) Command Reply)}

theorem recordings_start (tables : Vector (Table τ) m) (seat : Fin n → Fin m) (current : Fin n) :
    (start tables seat current).recordings = 0 := by
  rw [recordings_eq_zero]
  intro k
  rw [recorderAt_start]
  nofun

/-! ## One step -/

/-- Only the recorder in use can begin to record or cease to. -/
theorem recordings_step (p : Profile) (capture : Level) (linked : s.Linked) (command : Command) :
    (s.step p capture command).2.recordings +
        (decide (s.recorder.phase = .recording)).toNat =
      s.recordings + (decide ((s.recorderAfter p command).phase = .recording)).toNat := by
  have changed := countP_of_change
    (f := fun k => decide ((s.recorderAt k).phase = .recording))
    (g := fun k => decide (((s.step p capture command).2.recorderAt k).phase = .recording))
    (List.nodup_finRange n) (List.mem_finRange s.current) fun other apart => by
      rw [recorderAt_step p capture linked.recorder, if_neg (Ne.symm apart)]
  rw [recorderAt_step p capture linked.recorder, if_pos rfl] at changed
  exact changed

/-- What a step changes of the pauses under way: one more for a pause begun, one less for a pause sealed
or given up. -/
def Balanced (entry : Entry (Session τ n m) Command Reply) : Prop :=
  (begun? entry).toList.length + (decide (entry.before.recorder.phase = .recording)).toNat =
    (sealed? entry).toList.length + (givesUp entry).toNat +
      (decide ((entry.before.recorderAfter .debug entry.request).phase = .recording)).toNat

/-- A step that neither begins nor ends a pause leaves the recorder in use recording as it was. -/
theorem Balanced.idle {entry : Entry (Session τ n m) Command Reply} (unbegun : begun? entry = none)
    (unsealed : sealed? entry = none) (ungiven : entry.request ≠ .reset)
    (phase : (entry.before.recorderAfter .debug entry.request).phase =
      entry.before.recorder.phase) : Balanced entry := by
  simp [Balanced, unbegun, unsealed, givesUp, ungiven, phase]

theorem balanced_beginPause (capture : Level) (s : Session τ n m) (regions : UInt32) :
    Balanced (Entry.of (fun s => s.step .debug capture) s (.beginPause regions)) := by
  have recorder : s.recorderAfter .debug (.beginPause regions) =
      (s.recorder.beginPause .debug s.table.maxRegions regions s.totals).state.1 := rfl
  have begins := begun?_beginPause_iff (p := .debug) (s := s) capture regions
  obtain ⟨fault, same⟩ | ⟨fault, _, _, same⟩ | ⟨pauseId, _, _, same⟩ :=
    Recorder.beginPause_cases .debug s.table.maxRegions regions s.recorder s.totals
  · rw [same] at begins recorder
    refine .idle (by_contra fun begun => nomatch begins.mp begun) rfl (by simp) ?_
    rw [Entry.before_of, Entry.request_of, recorder]
    rfl
  · rw [same] at begins recorder
    refine .idle (by_contra fun begun => nomatch begins.mp begun) rfl (by simp) ?_
    rw [Entry.before_of, Entry.request_of, recorder]
    exact s.recorder.phase_prepare regions
  · have result : (s.recorder.beginPause .debug s.table.maxRegions regions s.totals).result =
        .ok () := by
      rw [same]
      rfl
    obtain ⟨pause, begun⟩ := Option.ne_none_iff_exists'.mp (begins.mpr result)
    have paused := (Recorder.beginPause_ok_iff.mp result rfl).1
    have unsealed : sealed? (Entry.of (fun s => s.step .debug capture) s (.beginPause regions)) =
        none := rfl
    rw [same] at recorder
    simp [Balanced, begun, unsealed, givesUp, recorder, paused, Outcome.done]

theorem balanced_sealPause (capture : Level) (s : Session τ n m) (nanos : UInt64) :
    Balanced (Entry.of (fun s => s.step .debug capture) s (.sealPause nanos)) := by
  have recorder : s.recorderAfter .debug (.sealPause nanos) =
      (s.recorder.sealPause .debug nanos s.totals).state.1 := rfl
  have verdict := verdict_sealPause .debug capture s nanos
  have unbegun : begun? (Entry.of (fun s => s.step .debug capture) s (.sealPause nanos)) = none := rfl
  by_cases recording : s.recorder.phase = .recording
  · obtain ⟨result, state⟩ := Recorder.sealPause_of_recording .debug nanos s.totals recording
    rw [result] at verdict
    simp [Balanced, unbegun, sealed?, verdict, givesUp, recorder, state, recording, Except.map,
      Verdict.ofResult]
  · have refused : (Profile.debug.checks && s.recorder.phase != .recording) = true := by
      simp [Profile.checks, recording]
    rw [Recorder.sealPause_of_refused refused] at recorder verdict
    refine .idle rfl ?_ (by simp) ?_
    · simp [sealed?, verdict, Outcome.faulted, Except.map, Verdict.ofResult]
    · rw [Entry.before_of, Entry.request_of, recorder]
      rfl

/-- Every step of a checking profile is balanced. -/
theorem balanced_step (capture : Level) (s : Session τ n m) (command : Command) :
    Balanced (Entry.of (fun s => s.step .debug capture) s command) := by
  cases about : command.concern with
  | beginning regions =>
      cases command with
      | beginPause regions => exact balanced_beginPause capture s regions
      | _ => cases about
  | sealing nanos =>
      cases command with
      | sealPause nanos => exact balanced_sealPause capture s nanos
      | _ => cases about
  | resetting =>
      cases command with
      | reset =>
          have after : (s.recorderAfter .debug .reset).phase = .idle := rfl
          simp [Balanced, begun?, sealed?, givesUp, after]
      | _ => cases about
  | recording indices =>
      refine .idle ?_ ?_ ?_ ?_
      · cases command <;> cases about <;> rfl
      · cases command <;> cases about <;> rfl
      · cases command <;> cases about <;> simp
      · rw [Entry.before_of, Entry.request_of, recorderAfter, about]
        exact Recorder.phase_enlistAll ..
  | table request =>
      cases command with
      | table request => exact .idle rfl rfl (by simp) rfl
      | _ => cases about
  | other =>
      refine .idle ?_ ?_ ?_ ?_
      · cases command <;> cases about <;> rfl
      · cases command <;> cases about <;> rfl
      · cases command <;> cases about <;> simp
      · rw [Entry.before_of, Entry.request_of, recorderAfter, about]

/-! ## Runs -/

/-- Every pause that was begun is sealed, given up, or still recorded. -/
theorem settled_run (capture : Level) (tables : Vector (Table τ) m) (seat : Fin n → Fin m)
    (current : Fin n) (commands : List Command) :
    let log := transcript (fun s => s.step .debug capture) (start tables seat current) commands
    (pauseIds log).length = (summaries log).length + log.countP givesUp +
      ((start tables seat current).run .debug capture commands).2.recordings := by
  intro log
  rw [run_snd]
  refine (Transcript.induction (fun log now => Linked now ∧
    (pauseIds log).length = (summaries log).length + log.countP givesUp + recordings now)
    ⟨linked_start tables seat current, by rw [recordings_start]; rfl⟩ ?_ commands).2
  intro log now command ⟨linked, settled⟩
  refine ⟨linked.step command, ?_⟩
  have balanced := balanced_step capture now command
  have changed := recordings_step .debug capture linked command
  unfold Balanced at balanced
  rw [Entry.before_of, Entry.request_of] at balanced
  rw [pauseIds_concat, summaries_concat, List.countP_append, countP_cons_toNat, List.countP_nil,
    List.length_append, List.length_append]
  omega

/-- In a checking profile, over every run on any number of recorders with fewer pauses than there are
numbers for them: the totals count every pause that was sealed, every pause that was given up, and every
pause that is still recorded.  So while no recorder is recording, they count the pauses sealed exactly
if no pause was given up. -/
theorem settles_run (capture : Level) (tables : Vector (Table τ) m) (seat : Fin n → Fin m)
    (current : Fin n) (commands : List Command)
    (few : (pauseIds (transcript (fun s => s.step .debug capture) (start tables seat current)
      commands)).length < UInt64.size - 1) :
    let log := transcript (fun s => s.step .debug capture) (start tables seat current) commands
    let s := ((start tables seat current).run .debug capture commands).2
    s.totals.pauses.toNat = (summaries log).length + log.countP givesUp + s.recordings ∧
      ((∀ k, (s.recorderAt k).phase ≠ .recording) →
        (s.totals.pauses.toNat = (summaries log).length ↔
          ∀ entry ∈ log, givesUp entry = false)) := by
  intro log s
  have settled : s.totals.pauses.toNat =
      (summaries log).length + log.countP givesUp + s.recordings :=
    (kept_run few).numbered.pauses.trans (settled_run capture tables seat current commands)
  refine ⟨settled, fun paused => ?_⟩
  rw [settled, recordings_eq_zero.mpr paused]
  have none : log.countP givesUp = 0 ↔ ∀ entry ∈ log, givesUp entry = false := by
    simp [List.countP_eq_zero]
  rw [← none]
  omega

/-- Two recorders: a pause is given up, one is sealed, one is reset after it was sealed, and one is still
recorded. -/
theorem settles_run_two_recorders :
    let commands : List Command :=
      [.beginPause 3, .record 1, .use 1, .beginPause 3, .record 2, .sealPause 5, .reset, .use 0,
        .reset, .beginPause 3, .beginPause 3]
    let s : Session Plan 2 1 := start #v[.ofSize 3] (fun _ => 0) 0
    let log := transcript (fun s => s.step .debug .off) s commands
    let last := (s.run .debug .off commands).2
    (pauseIds log).length < UInt64.size - 1 ∧
      last.totals.pauses.toNat = (summaries log).length + log.countP givesUp + last.recordings ∧
      (summaries log).length = 1 ∧ log.countP givesUp = 1 ∧ last.recordings = 1 := by
  intro commands s log last
  have few : (pauseIds log).length < UInt64.size - 1 := by decide +kernel
  refine ⟨few, ?_, by decide +kernel⟩
  unfold log last s
  exact (settles_run .off _ _ _ commands few).1

/-- One recorder begins a pause and is reset: none is sealed, and the totals count one. -/
theorem settles_run_given_up :
    let commands : List Command := [.beginPause 1, .reset]
    let s : Session Plan 1 1 := start #v[.ofSize 1] (fun _ => 0) 0
    let log := transcript (fun s => s.step .debug .off) s commands
    let last := (s.run .debug .off commands).2
    s.totals = .zero ∧ (∀ k, (last.recorderAt k).phase ≠ .recording) ∧ summaries log = [] ∧
      last.totals.pauses = 1 := by
  decide +kernel

end Session

end Evacuation
