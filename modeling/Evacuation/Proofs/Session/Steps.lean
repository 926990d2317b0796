import Evacuation.Proofs.Recorder.Winners
import Evacuation.Proofs.Transcript
import Evacuation.Session.Basic

/-!
# What one command does to a session

A command is about the recorder in use, the table behind it, the totals, or none of them.
`Session.recorderAt_step`, `tableAt_step` and `totals_step` say for all commands at once what becomes of
each recorder and table and of the totals, as long as the recorder in use is linked; every command
keeps the recorders of a session linked.
-/

namespace Evacuation

inductive Concern where
  | beginning (regions : UInt32)
  | recording (indices : List UInt32)
  | sealing (nanos : UInt64)
  | resetting
  | table (request : Table.Request)
  | other

def Command.concern : Command → Concern
  | .beginPause regions => .beginning regions
  | .record index => .recording [index]
  | .recordAll indices => .recording indices
  | .recordRange first limit stride => .recording (progression first limit stride)
  | .sealPause nanos => .sealing nanos
  | .reset => .resetting
  | .table request => .table request
  | _ => .other

namespace Recorder

variable {τ : Type} [Layout τ]

theorem recordAll_singleton (p : Profile) (r : Recorder) (table : Table τ) (index : UInt32) :
    (r.recordAll p table [index]).state = (r.record p table index).state := by
  rcases first : r.record p table index with ⟨fault | won, state, events⟩
  · rw [recordAll_of_error first]
    rfl
  · rw [recordAll_of_ok first]
    rfl

end Recorder

namespace Session

variable {τ : Type} {n m : Nat}

def recorderAt (s : Session τ n m) (k : Fin n) : Recorder :=
  s.recorders.get k

def tableAt (s : Session τ n m) (k : Fin m) : Table τ :=
  s.tables.get k

theorem recorderAt_withRecorder (s : Session τ n m) (r : Recorder) (k : Fin n) :
    (s.withRecorder r).recorderAt k = if s.current = k then r else s.recorderAt k := by
  change (s.recorders.set s.current r)[k] = if s.current = k then r else s.recorders[k]
  simp [Vector.getElem_set, Fin.ext_iff]

theorem tableAt_withTable (s : Session τ n m) (t : Table τ) (k : Fin m) :
    (s.withTable t).tableAt k = if s.seat s.current = k then t else s.tableAt k := by
  change (s.tables.set (s.seat s.current) t)[k] = if s.seat s.current = k then t else s.tables[k]
  simp [Vector.getElem_set, Fin.ext_iff]

theorem recorderAt_start [Layout τ] (tables : Vector (Table τ) m) (seat : Fin n → Fin m)
    (current k : Fin n) :
    (start tables seat current).recorderAt k = .ofSize (tables.get (seat k)).maxRegions :=
  Vector.getElem_ofFn k.isLt

theorem withRecorder_self (s : Session τ n m) : s.withRecorder s.recorder = s := by
  simp [withRecorder, recorder]

theorem withTable_self (s : Session τ n m) : s.withTable s.table = s := by
  simp [withTable, table]

@[simp] theorem recorder_withRecorder (s : Session τ n m) (r : Recorder) :
    (s.withRecorder r).recorder = r := by
  simp [withRecorder, recorder]

@[simp] theorem table_withTable (s : Session τ n m) (t : Table τ) : (s.withTable t).table = t := by
  simp [withTable, table]

/-- A request to a claim board leaves everything else alone. -/
theorem onBoard_session (s : Session τ n m) (number : Nat)
    (operate : ClaimBoard → Except Fault Answer × ClaimBoard) :
    ∃ boards, (s.onBoard number operate).session = { s with boards } := by
  unfold onBoard
  cases s.boards[number]? with
  | none => exact ⟨s.boards, rfl⟩
  | some board => exact ⟨_, rfl⟩

variable [Layout τ]

/-! ## Runs -/

/-- A run replies with the answers of its transcript. -/
theorem run_eq (p : Profile) (capture : Level) (s : Session τ n m) (commands : List Command) :
    s.run p capture commands =
      ((transcript (fun s => s.step p capture) s commands).map Entry.answer,
        finalState (fun s => s.step p capture) s commands) := by
  induction commands generalizing s with
  | nil => rfl
  | cons command rest ih =>
      rw [run]
      simp only [ih]
      rfl

theorem run_snd (p : Profile) (capture : Level) (s : Session τ n m) (commands : List Command) :
    (s.run p capture commands).2 = finalState (fun s => s.step p capture) s commands := by
  rw [run_eq]

/-- A run of some commands and then of others is the two runs, one after the other. -/
theorem run_append (p : Profile) (capture : Level) (s : Session τ n m) (first second : List Command) :
    s.run p capture (first ++ second) =
      ((s.run p capture first).1 ++ ((s.run p capture first).2.run p capture second).1,
        ((s.run p capture first).2.run p capture second).2) := by
  induction first generalizing s with
  | nil => rfl
  | cons command rest ih => simp only [List.cons_append, run, ih]

/-! ## Commands -/

theorem verdict_beginPause (p : Profile) (capture : Level) (s : Session τ n m) (regions : UInt32) :
    (s.step p capture (.beginPause regions)).1.verdict =
      .ofResult ((s.recorder.beginPause p s.table.maxRegions regions s.totals).result.map
        fun _ => .nothing) := rfl

theorem verdict_sealPause (p : Profile) (capture : Level) (s : Session τ n m) (nanos : UInt64) :
    (s.step p capture (.sealPause nanos)).1.verdict =
      .ofResult ((s.recorder.sealPause p nanos s.totals).result.map .summary) := rfl

/-- A series of recordings, of whatever kind, changes the recorder in use and its table. -/
theorem execute_recording {p : Profile} {s : Session τ n m} {command : Command}
    {indices : List UInt32} (about : command.concern = .recording indices) :
    (s.execute p command).session =
      (s.withRecorder (s.recorder.recordAll p s.table indices).state.1).withTable
        (s.recorder.recordAll p s.table indices).state.2 := by
  cases command with
  | record index =>
      cases about
      rw [Recorder.recordAll_singleton]
      rfl
  | recordAll indices =>
      cases about
      rfl
  | recordRange first limit stride =>
      cases about
      have effect : s.execute p (.recordRange first limit stride) =
        s.recording .number (s.recorder.recordRange p s.table first limit stride) := rfl
      rw [effect, Recorder.recordRange_eq]
      rfl
  | _ => cases about

/-- A command about nothing else leaves recorders, tables and totals alone. -/
theorem execute_other {p : Profile} {s : Session τ n m} {command : Command}
    (about : command.concern = .other) :
    ∃ boards current, (s.execute p command).session = { s with boards, current } := by
  cases command with
  | use recorder =>
      unfold execute
      dsimp only
      split
      · exact ⟨s.boards, _, rfl⟩
      · exact ⟨s.boards, s.current, rfl⟩
  | openBoard workers size =>
      unfold execute
      dsimp only
      split
      · exact ⟨_, s.current, rfl⟩
      · exact ⟨s.boards, s.current, rfl⟩
  | releaseBoard board =>
      obtain ⟨boards, same⟩ := s.onBoard_session board fun b => b.serve p .release
      exact ⟨boards, s.current, same⟩
  | claim board index =>
      obtain ⟨boards, same⟩ := s.onBoard_session board fun b => b.serve p (.claim index)
      exact ⟨boards, s.current, same⟩
  | isClaimed board index =>
      obtain ⟨boards, same⟩ := s.onBoard_session board fun b => b.serve p (.isClaimed index)
      exact ⟨boards, s.current, same⟩
  | walk board worker limit =>
      obtain ⟨boards, same⟩ := s.onBoard_session board fun b =>
        let walk := s.recorder.walk p b worker (s.table.visitor (listVisits limit)) #[]
        (.ok (.walk walk.visits.toList (stopOf walk.result)), walk.board)
      exact ⟨boards, s.current, same⟩
  | beginPause maxRegions => cases about
  | record index => cases about
  | recordAll indices => cases about
  | recordRange first limit stride => cases about
  | sealPause nanos => cases about
  | reset => cases about
  | table request => cases about
  | _ => exact ⟨s.boards, s.current, rfl⟩

/-- The regions whose claims a command wins. -/
def wonBy (p : Profile) (s : Session τ n m) (command : Command) : List UInt32 :=
  match command.concern with
  | .recording indices => s.recorder.winners p s.table indices
  | _ => []

/-- What a command makes of the recorder in use. -/
def recorderAfter (p : Profile) (s : Session τ n m) (command : Command) : Recorder :=
  match command.concern with
  | .beginning regions =>
    (s.recorder.beginPause p s.table.maxRegions regions s.totals).state.1
  | .recording indices => s.recorder.enlistAll (s.recorder.winners p s.table indices)
  | .sealing nanos => (s.recorder.sealPause p nanos s.totals).state.1
  | .resetting => s.recorder.reset.1
  | .table _ | .other => s.recorder

def tableAfter (p : Profile) (s : Session τ n m) (command : Command) : Table τ :=
  match command.concern with
  | .recording indices => s.table.tell (s.recorder.winners p s.table indices)
  | .table request => (s.table.serve request).2
  | .beginning _ | .sealing _ | .resetting | .other => s.table

def totalsAfter (p : Profile) (s : Session τ n m) (command : Command) : Totals :=
  match command.concern with
  | .beginning regions =>
    (s.recorder.beginPause p s.table.maxRegions regions s.totals).state.2
  | .sealing nanos => (s.recorder.sealPause p nanos s.totals).state.2
  | .recording _ | .resetting | .table _ | .other => s.totals

variable {p : Profile} {capture : Level} {s : Session τ n m}

/-- A command changes at most the recorder in use, the table behind it, and the totals; boards and the
choice of the recorder in use apart. -/
theorem execute_changes (linked : s.recorder.Linked) (command : Command) :
    (s.execute p command).session.recorders = (s.withRecorder (s.recorderAfter p command)).recorders ∧
      (s.execute p command).session.tables = (s.withTable (s.tableAfter p command)).tables ∧
      (s.execute p command).session.totals = s.totalsAfter p command := by
  have recorders : (s.withRecorder s.recorder).recorders = s.recorders := by rw [withRecorder_self]
  have tables : (s.withTable s.table).tables = s.tables := by rw [withTable_self]
  cases about : command.concern with
  | recording indices =>
      rw [execute_recording about, recorderAfter, tableAfter, totalsAfter, about]
      dsimp only
      rw [linked.recordAll]
      exact ⟨rfl, rfl, rfl⟩
  | other =>
      obtain ⟨boards, current, same⟩ := execute_other (p := p) (s := s) about
      rw [same, recorderAfter, tableAfter, totalsAfter, about]
      exact ⟨recorders.symm, tables.symm, rfl⟩
  | beginning regions =>
      cases command with
      | beginPause regions => exact ⟨rfl, tables.symm, rfl⟩
      | _ => cases about
  | sealing nanos =>
      cases command with
      | sealPause nanos => exact ⟨rfl, tables.symm, rfl⟩
      | _ => cases about
  | resetting =>
      cases command with
      | reset => exact ⟨rfl, tables.symm, rfl⟩
      | _ => cases about
  | table request =>
      cases command with
      | table request => exact ⟨recorders.symm, rfl, rfl⟩
      | _ => cases about

theorem recorderAt_step (p : Profile) (capture : Level) (linked : s.recorder.Linked)
    (command : Command) (k : Fin n) :
    (s.step p capture command).2.recorderAt k =
      if s.current = k then s.recorderAfter p command else s.recorderAt k := by
  rw [← recorderAt_withRecorder]
  exact congrArg (Vector.get · k) (s.execute_changes linked command).1

theorem tableAt_step (p : Profile) (capture : Level) (linked : s.recorder.Linked)
    (command : Command) (k : Fin m) :
    (s.step p capture command).2.tableAt k =
      if s.seat s.current = k then s.tableAfter p command else s.tableAt k := by
  rw [← tableAt_withTable]
  exact congrArg (Vector.get · k) (s.execute_changes linked command).2.1

theorem totals_step (p : Profile) (capture : Level) (linked : s.recorder.Linked)
    (command : Command) :
    (s.step p capture command).2.totals = s.totalsAfter p command :=
  (s.execute_changes linked command).2.2

/-! ## Linked sessions -/

def Linked (s : Session τ n m) : Prop :=
  ∀ k : Fin n, (s.recorderAt k).Linked

omit [Layout τ] in
theorem Linked.recorder (h : s.Linked) : s.recorder.Linked :=
  h s.current

theorem linked_start (tables : Vector (Table τ) m) (seat : Fin n → Fin m) (current : Fin n) :
    (start tables seat current).Linked := by
  intro k
  rw [recorderAt_start]
  exact (Recorder.blank_ofSize _).linked

theorem Linked.recorderAfter (h : s.Linked) (command : Command) :
    (s.recorderAfter p command).Linked := by
  unfold Session.recorderAfter
  split
  · exact h.recorder.after_beginPause p _ _ _
  · exact (h.recorder.enlistAll p s.table _).1
  · exact h.recorder.after_sealPause p _ _
  · exact h.recorder.after_reset
  · exact h.recorder
  · exact h.recorder

theorem Linked.step (h : s.Linked) (command : Command) :
    (s.step p capture command).2.Linked := by
  intro k
  rw [recorderAt_step p capture h.recorder]
  split
  · exact h.recorderAfter command
  · exact h k

theorem Linked.run (h : s.Linked) (p : Profile) (capture : Level) (commands : List Command) :
    (s.run p capture commands).2.Linked := by
  rw [run_snd]
  exact Transcript.induction (fun _ now => Linked now) h (fun _ _ command h => h.step command) commands

theorem linked_run (p : Profile) (capture : Level) (tables : Vector (Table τ) m)
    (seat : Fin n → Fin m) (current : Fin n) (commands : List Command) :
    ((start tables seat current).run p capture commands).2.Linked :=
  (linked_start tables seat current).run p capture commands

end Session

end Evacuation
