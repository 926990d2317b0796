import Evacuation.Proofs.Profile.Impartial
import Evacuation.Session.Basic

/-!
# What a session owes to its profile

Every command is carried out alike in all profiles as long as no contract is broken, so that whole
sessions are.  A capture level takes events away and changes nothing besides.
-/

namespace Evacuation

/-! ## The fault in an answer -/

def Answer.stop? : Answer → Option Fault
  | .series _ stop => stop
  | .walk _ stop => stop
  | _ => none

def Verdict.fault? : Verdict → Option Fault
  | .answered answer => answer.stop?
  | .faulted fault => some fault
  | .refused _ => none

def Verdict.breaks (verdict : Verdict) : Bool :=
  verdict.fault?.any Fault.isContract

theorem Verdict.breaks_of_result {α : Type} {result : Except Fault α} {answer : α → Answer}
    (broke : Evacuation.breaks result = true) : (ofResult (result.map answer)).breaks = true := by
  cases result with
  | error fault => exact broke
  | ok a => cases broke

def Verdict.Blameless (foreign : Fault → Prop) (verdict : Verdict) : Prop :=
  ∀ fault, verdict.fault? = some fault → fault.isContract = true → foreign fault

namespace Verdict.Blameless

variable {foreign : Fault → Prop}

theorem of_result {α : Type} {result : Except Fault α} {answer : α → Answer}
    (plain : ∀ a, (answer a).stop? = none) (h : Evacuation.Blameless foreign result) :
    (ofResult (result.map answer)).Blameless foreign := by
  intro fault reported contract
  cases result with
  | error same => exact h fault (congrArg Except.error (Option.some.inj reported)) contract
  | ok a =>
      have none : (answer a).stop? = some fault := reported
      rw [plain] at none
      cases none

theorem of_series {σ : Type} {o : Outcome σ Series}
    (h : Evacuation.Blameless foreign o.tally.result) :
    (ofResult (o.result.map fun series => .series series.wins series.stop)).Blameless foreign := by
  intro fault reported contract
  rcases o with ⟨same | ⟨wins, _ | same⟩, _, _⟩
  · exact h fault (congrArg Except.error (Option.some.inj reported)) contract
  · cases reported
  · exact h fault (congrArg Except.error (Option.some.inj reported)) contract

theorem of_walk {result : Except Fault Unit} (seen : List UInt32)
    (h : Evacuation.Blameless foreign result) :
    (ofResult (.ok (.walk seen (Session.stopOf result)))).Blameless foreign := by
  intro fault reported contract
  cases result with
  | error same => exact h fault (congrArg Except.error (Option.some.inj reported)) contract
  | ok _ => cases reported

end Verdict.Blameless

namespace Reply

def mute (reply : Reply) : Reply :=
  { reply with events := [] }

def without (name : String) (reply : Reply) : Reply :=
  { reply with events := reply.events.filter fun event => event.name != name }

end Reply

namespace Session

variable {τ : Type} {n m : Nat}

/-! ## One command -/

abbrev Effect.broken (effect : Effect τ n m) : Bool :=
  effect.verdict.breaks

theorem reading_uniform {α : Type} {result : Profile → Except Fault α} (s : Session τ n m)
    (answer : α → Answer) (h : Uniform breaks result) :
    Uniform Effect.broken fun p => s.reading ((result p).map answer) :=
  h.map (fun result => s.reading (result.map answer)) fun _ broke => Verdict.breaks_of_result broke

theorem recording_uniform {α : Type} {outcome : Profile → Outcome (Recorder × Table τ) α}
    (s : Session τ n m) (answer : α → Answer) (h : Uniform (breaks ·.result) outcome) :
    Uniform Effect.broken fun p => s.recording answer (outcome p) :=
  h.map (s.recording answer) fun _ broke => Verdict.breaks_of_result broke

theorem accounting_uniform {α : Type} {outcome : Profile → Outcome (Recorder × Totals) α}
    (s : Session τ n m) (answer : α → Answer) (h : Uniform (breaks ·.result) outcome) :
    Uniform Effect.broken fun p => s.accounting answer (outcome p) :=
  h.map (s.accounting answer) fun _ broke => Verdict.breaks_of_result broke

theorem onBoard_uniform (s : Session τ n m) (number : Nat)
    (operate : Profile → ClaimBoard → Except Fault Answer × ClaimBoard)
    (each : ∀ board, Uniform (fun o => (Verdict.ofResult o.1).breaks) fun p => operate p board) :
    Uniform Effect.broken fun p => s.onBoard number (operate p) := by
  unfold onBoard
  cases s.boards[number]? with
  | none => exact .const _ _
  | some board =>
      refine (each board).map (fun o =>
        (⟨.ofResult o.1, { s with boards := s.boards.setIfInBounds number o.2 }, []⟩ :
          Effect τ n m)) ?_
      intro _ broke
      exact broke

/-- A request to a board is served alike in all profiles, as long as no contract is broken. -/
theorem request_uniform (s : Session τ n m) (number : Nat) (request : ClaimBoard.Request) :
    Uniform Effect.broken fun p => s.onBoard number fun b => b.serve p request := by
  refine s.onBoard_uniform number (fun p b => b.serve p request) fun b => ?_
  refine (b.serve_uniform request).map id ?_
  rintro ⟨fault | _, _⟩ broke
  · exact broke
  · cases broke

variable [Layout τ]

theorem execute_uniform (s : Session τ n m) (command : Command) :
    Uniform Effect.broken fun p => s.execute p command := by
  cases command with
  | use recorder => exact .const _ _
  | beginPause maxRegions =>
      exact s.accounting_uniform _ (s.recorder.beginPause_uniform _ maxRegions s.totals)
  | record index => exact s.recording_uniform _ (s.recorder.record_uniform s.table index)
  | recordAll indices =>
      refine (s.recorder.recordAll_uniform s.table indices).map
        (s.recording fun series => .series series.wins series.stop) ?_
      rintro ⟨fault | ⟨wins, _ | fault⟩, state, events⟩ broke
      · exact broke
      · cases broke
      · exact broke
  | recordRange first limit stride =>
      exact s.recording_uniform _ (s.recorder.recordRange_uniform s.table first limit stride)
  | sealPause nanos => exact s.accounting_uniform _ (s.recorder.sealPause_uniform nanos s.totals)
  | reset => exact .const _ _
  | anyFailed => exact s.reading_uniform _ s.recorder.anyFailed_uniform
  | count => exact s.reading_uniform _ s.recorder.count_uniform
  | contains index => exact s.reading_uniform _ (s.recorder.contains_uniform index)
  | listing => exact s.reading_uniform _ s.recorder.listing_uniform
  | take k => exact s.reading_uniform _ s.recorder.listing_uniform
  | maxRegions => exact .const _ _
  | openBoard workers size => exact .const _ _
  | releaseBoard board => exact s.request_uniform board .release
  | claim board index => exact s.request_uniform board (.claim index)
  | isClaimed board index => exact s.request_uniform board (.isClaimed index)
  | walk board worker limit =>
      refine s.onBoard_uniform board (fun p b =>
        let walk := s.recorder.walk p b worker (s.table.visitor (listVisits limit)) #[]
        (.ok (.walk walk.visits.toList (stopOf walk.result)), walk.board)) fun b => ?_
      refine (s.recorder.walk_uniform b worker (s.table.visitor (listVisits limit)) #[]).map
        (fun walk => (Except.ok (Answer.walk walk.visits.toList (stopOf walk.result)), walk.board)) ?_
      rintro ⟨fault | _, _, _⟩ broke
      · exact broke
      · cases broke
  | totals => exact .const _ _
  | table request => exact .const _ _

/-! ## What an unchecked profile reports -/

theorem request_blameless {p : Profile} (unchecked : p.checks = false) (s : Session τ n m)
    (number : Nat) (request : ClaimBoard.Request) :
    (s.onBoard number fun b => b.serve p request).verdict.Blameless (Layout.Refuses τ) := by
  unfold onBoard
  cases s.boards[number]? with
  | none => exact nofun
  | some board =>
      cases request with
      | claim index => exact .of_result (fun _ => rfl) (board.claim_blameless index)
      | isClaimed index => exact .of_result (fun _ => rfl) (board.isClaimed_blameless index)
      | offset worker length =>
          exact .of_result (fun _ => rfl) (board.offset_blameless unchecked worker length)
      | workers => exact nofun
      | release => exact nofun
      | inspect => exact nofun

theorem serve_blameless (table : Table τ) (request : Table.Request) :
    (Verdict.ofResult (table.serve request).1).Blameless (Layout.Refuses τ) := by
  cases request with
  | note index => exact .of_result (fun _ => rfl) (table.update_blameless index Region.note)
  | region index => exact .of_result (fun _ => rfl) (table.region_blameless index)
  | clearRegion index => exact .of_result (fun _ => rfl) (table.update_blameless index Region.clear)
  | inspect index => exact .of_result (fun _ => rfl) (table.region_blameless index)
  | clearAll => exact nofun
  | failedRegions => exact nofun
  | touched => exact nofun
  | heapSize => exact nofun
  | maxRegions => exact nofun
  | commit n => exact nofun

theorem visitor_blameless (table : Table τ) (limit : Option Nat) (index : UInt32)
    (seen : Array UInt32) :
    Blameless (Layout.Refuses τ) (table.visitor (listVisits limit) index seen).1 := by
  have resolves := table.region_blameless index
  unfold Table.visitor
  rcases resolved : table.region index with fault | region
  · rw [resolved] at resolves
    exact resolves.fault
  · unfold listVisits
    dsimp only
    split
    · exact .error rfl
    · exact .ok _

/-- Where nothing is checked, a command reports a broken contract only if a layout worded its reason
for refusing an index so. -/
theorem execute_blameless {p : Profile} (unchecked : p.checks = false) (s : Session τ n m)
    (command : Command) : (s.execute p command).verdict.Blameless (Layout.Refuses τ) := by
  cases command with
  | use recorder =>
      unfold execute
      dsimp only
      split
      · exact nofun
      · exact nofun
  | beginPause maxRegions =>
      exact .of_result (fun _ => rfl)
        (s.recorder.beginPause_blameless unchecked s.table.maxRegions maxRegions s.totals)
  | record index =>
      exact .of_result (fun _ => rfl) (s.recorder.record_blameless unchecked s.table index)
  | recordAll indices => exact .of_series (s.recorder.recordAll_blameless unchecked s.table indices)
  | recordRange first limit stride =>
      have series := s.recorder.recordAll_blameless unchecked s.table (progression first limit stride)
      rw [← Recorder.recordRange_eq] at series
      exact .of_result (fun _ => rfl) series
  | sealPause nanos =>
      exact .of_result (fun _ => rfl) (s.recorder.sealPause_blameless unchecked nanos s.totals)
  | reset => exact nofun
  | anyFailed =>
      exact .of_result (fun _ => rfl) ((s.recorder.count_blameless unchecked).bind fun _ => .ok _)
  | count => exact .of_result (fun _ => rfl) (s.recorder.count_blameless unchecked)
  | contains index => exact .of_result (fun _ => rfl) (s.recorder.contains_blameless unchecked index)
  | listing => exact .of_result (fun _ => rfl) (s.recorder.listing_blameless unchecked)
  | take k => exact .of_result (fun _ => rfl) (s.recorder.listing_blameless unchecked)
  | maxRegions => exact nofun
  | openBoard workers size =>
      unfold execute
      dsimp only
      split
      · exact nofun
      · next fault refused =>
        intro same reported
        cases reported
        exact ClaimBoard.create_blameless workers size fault refused
  | releaseBoard board => exact s.request_blameless unchecked board .release
  | claim board index => exact s.request_blameless unchecked board (.claim index)
  | isClaimed board index => exact s.request_blameless unchecked board (.isClaimed index)
  | walk board worker limit =>
      unfold execute onBoard
      dsimp only
      cases s.boards[board]? with
      | none => exact nofun
      | some b =>
          exact .of_walk _
            (s.recorder.walk_blameless unchecked (visitor_blameless s.table limit) b worker #[])
  | totals => exact nofun
  | table request => exact serve_blameless s.table request

/-! ## One step -/

theorem step_release (capture : Level) (s : Session τ n m) (command : Command)
    (unbroken : (s.step .debug capture command).1.verdict.breaks = false) :
    s.step .release capture command = s.step .debug capture command := by
  have same := (s.execute_uniform command).release_eq unbroken
  unfold step
  rw [same]
  rfl

theorem step_plain (capture : Level) (s : Session τ n m) (command : Command) :
    s.step .plain capture command =
      ((s.step .release capture command).1.mute, (s.step .release capture command).2) := by
  have same := (s.execute_uniform command).plain_eq
  unfold step
  rw [same]
  rfl

/-- A capture level decides on nothing but the events of a reply. -/
theorem step_capture (p : Profile) (capture : Level) (s : Session τ n m) (command : Command) :
    s.step p capture command =
      ({ (s.step p .trace command).1 with
          events := (s.step p .trace command).1.events.filter capture.admits },
        (s.step p .trace command).2) := by
  unfold step Event.captured
  cases p.traces with
  | true => simp [Level.admits_trace]
  | false => rfl

theorem admits_debug :
    Level.debug.admits = fun event => event.name != "region_recorded" := by
  funext event
  cases event <;> rfl

/-- A capture level takes events away from the replies of a session and changes nothing besides. -/
structure Graded (s : Session τ n m) (p : Profile) (commands : List Command) : Prop where
  debug_eq : transcript (fun s => s.step p .debug) s commands =
    (transcript (fun s => s.step p .trace) s commands).map
      (Entry.mapAnswer (Reply.without "region_recorded"))
  info_eq : transcript (fun s => s.step p .info) s commands =
    (transcript (fun s => s.step p .trace) s commands).map (Entry.mapAnswer Reply.mute)
  off_eq : transcript (fun s => s.step p .off) s commands =
    (transcript (fun s => s.step p .trace) s commands).map (Entry.mapAnswer Reply.mute)

theorem graded (s : Session τ n m) (p : Profile) (commands : List Command) :
    s.Graded p commands := by
  refine ⟨?_, ?_, ?_⟩
  · apply Transcript.eq_map
    intro s command
    rw [step_capture, admits_debug]
    rfl
  · apply Transcript.eq_map
    intro s command
    rw [step_capture, Reply.mute]
    simp [Level.admits_info]
  · apply Transcript.eq_map
    intro s command
    rw [step_capture, Reply.mute]
    simp [Level.admits_off]

/-- The services of the library and their profiles: checked and unchecked runs of a session, a set, a
journal, a board or a table agree up to the first broken contract; unchecked runs report none of their
own and agree throughout, with and without events; and a session's capture level decides on nothing but
the events in its replies. -/
theorem profiles_agree (τ : Type) [Layout τ] :
    (∀ (n m : Nat) (capture : Level),
      Impartial (fun p (s : Session τ n m) => s.step p capture) (fun reply => reply.verdict.fault?)
        Reply.mute (Layout.Refuses τ)) ∧
    (∀ (n m : Nat) (s : Session τ n m) (p : Profile) (commands : List Command),
      s.Graded p commands) ∧
    Impartial (fun _ => RegionSet.serve) faultOf id (fun _ => False) ∧
    Impartial Journal.serve faultOf id (fun _ => False) ∧
    Impartial ClaimBoard.serve faultOf id (fun _ => False) ∧
    Impartial (fun _ (t : Table τ) => t.serve) faultOf id (Layout.Refuses τ) := by
  refine ⟨?_, fun _ _ => graded, RegionSet.impartial, Journal.impartial, ClaimBoard.impartial,
    Table.impartial τ⟩
  intro n m capture
  refine .of_step (step_release capture) (step_plain capture) ?_
  intro p unchecked s command
  exact s.execute_blameless unchecked command

end Session

end Evacuation
