import Evacuation.Recorder.Series
import Evacuation.Recorder.Walk

/-!
# Sessions

A session holds several recorders over tables that they share or own, claim boards for walking their
listings, and the totals over all pauses.  It serves commands one at a time; each command goes to the
recorder in use, to the table behind it, to a claim board, or to the session itself, and leaves a reply
with the recorder's phase and the events it emitted.
-/

namespace Evacuation

/-! ## Commands -/

/-- What can be asked of a session. -/
inductive Command where
  | use (recorder : Nat)
  | beginPause (maxRegions : UInt32)
  | record (index : UInt32)
  | recordAll (indices : List UInt32)
  | recordRange (first limit : UInt32) (stride : Nat)
  | sealPause (nanos : UInt64)
  | reset
  | anyFailed
  | count
  | contains (index : UInt32)
  | listing
  | take (n : Nat)
  | maxRegions
  | openBoard (workers : UInt64) (size : UInt32)
  | releaseBoard (board : Nat)
  | claim (board : Nat) (index : UInt32)
  | isClaimed (board : Nat) (index : UInt32)
  /-- Walks the listing with a visitor that stops when asked to visit more than `limit` regions. -/
  | walk (board : Nat) (worker : UInt64) (limit : Option Nat)
  | totals
  | table (request : Table.Request)
  deriving DecidableEq, Repr

/-- Why a session did not carry a command out at all. -/
inductive Refusal where
  | unknownRecorder
  | unknownBoard
  deriving DecidableEq, Repr

inductive Verdict where
  | answered (answer : Answer)
  | faulted (fault : Fault)
  | refused (refusal : Refusal)
  deriving DecidableEq, Repr

def Verdict.ofResult : Except Fault Answer → Verdict
  | .ok answer => .answered answer
  | .error fault => .faulted fault

/-! ## Sessions -/

/-- `n` recorders over `m` tables, with the claim boards and totals they share. -/
structure Session (τ : Type) (n m : Nat) where
  recorders : Vector Recorder n
  tables : Vector (Table τ) m
  seat : Fin n → Fin m
  boards : Array ClaimBoard
  totals : Totals
  current : Fin n

structure Reply where
  verdict : Verdict
  phase : Phase
  events : List Event
  deriving DecidableEq, Repr

namespace Session

variable {τ : Type} {n m : Nat}

/-- New recorders at their seats before the given tables, each sized to its table. -/
def start [Layout τ] (tables : Vector (Table τ) m) (seat : Fin n → Fin m) (current : Fin n) :
    Session τ n m where
  recorders := Vector.ofFn fun k => .ofSize tables[seat k].maxRegions
  tables
  seat
  boards := #[]
  totals := .zero
  current

def shared [Layout τ] (n : Nat) (table : Table τ) : Session τ (n + 1) 1 :=
  start (Vector.replicate 1 table) (fun _ => 0) 0

def separate [Layout τ] (n : Nat) (table : Table τ) : Session τ (n + 1) (n + 1) :=
  start (Vector.replicate (n + 1) table) id 0

def recorder (s : Session τ n m) : Recorder :=
  s.recorders[s.current]

def table (s : Session τ n m) : Table τ :=
  s.tables[s.seat s.current]

def withRecorder (s : Session τ n m) (r : Recorder) : Session τ n m :=
  { s with recorders := s.recorders.set s.current r }

def withTable (s : Session τ n m) (t : Table τ) : Session τ n m :=
  { s with tables := s.tables.set (s.seat s.current) t }

structure Effect (τ : Type) (n m : Nat) where
  verdict : Verdict
  session : Session τ n m
  events : List Event

def reading (s : Session τ n m) (result : Except Fault Answer) : Effect τ n m :=
  ⟨.ofResult result, s, []⟩

def recording {α : Type} (s : Session τ n m) (answer : α → Answer)
    (outcome : Outcome (Recorder × Table τ) α) : Effect τ n m :=
  ⟨.ofResult (outcome.result.map answer),
   (s.withRecorder outcome.state.1).withTable outcome.state.2, outcome.events⟩

def accounting {α : Type} (s : Session τ n m) (answer : α → Answer)
    (outcome : Outcome (Recorder × Totals) α) : Effect τ n m :=
  ⟨.ofResult (outcome.result.map answer),
   { s.withRecorder outcome.state.1 with totals := outcome.state.2 }, outcome.events⟩

def onBoard (s : Session τ n m) (number : Nat)
    (operate : ClaimBoard → Except Fault Answer × ClaimBoard) : Effect τ n m :=
  match s.boards[number]? with
  | none => ⟨.refused .unknownBoard, s, []⟩
  | some board =>
    let (result, board) := operate board
    ⟨.ofResult result, { s with boards := s.boards.setIfInBounds number board }, []⟩

/-- The visitor that lists the regions it sees, and stops when it is asked to list more than `limit`. -/
def listVisits (limit : Option Nat) (region : Region) (seen : Array UInt32) :
    Except Fault Unit × Array UInt32 :=
  if limit.any (· ≤ seen.size) then
    (.error (.visitorStopped region.index), seen)
  else
    (.ok (), seen.push region.index)

def stopOf : Except Fault Unit → Option Fault
  | .ok () => none
  | .error fault => some fault

variable [Layout τ]

def execute (profile : Profile) (s : Session τ n m) : Command → Effect τ n m
  | .use recorder =>
    if h : recorder < n then
      ⟨.answered .nothing, { s with current := ⟨recorder, h⟩ }, []⟩
    else
      ⟨.refused .unknownRecorder, s, []⟩
  | .beginPause maxRegions =>
    s.accounting (fun _ => .nothing)
      (s.recorder.beginPause profile s.table.maxRegions maxRegions s.totals)
  | .record index => s.recording .flag (s.recorder.record profile s.table index)
  | .recordAll indices =>
    s.recording (fun series => .series series.wins series.stop)
      (s.recorder.recordAll profile s.table indices)
  | .recordRange first limit stride =>
    s.recording .number (s.recorder.recordRange profile s.table first limit stride)
  | .sealPause nanos => s.accounting .summary (s.recorder.sealPause profile nanos s.totals)
  | .reset =>
    let (recorder, events) := s.recorder.reset
    ⟨.answered .nothing, s.withRecorder recorder, events⟩
  | .anyFailed => s.reading ((s.recorder.anyFailed profile).map .flag)
  | .count => s.reading ((s.recorder.count profile).map .number)
  | .contains index => s.reading ((s.recorder.contains profile index).map .flag)
  | .listing => s.reading ((s.recorder.listing profile).map .indices)
  | .take k => s.reading ((s.recorder.listing profile).map (.take k))
  | .maxRegions => s.reading (.ok (.number s.recorder.maxRegions.toNat))
  | .openBoard workers size =>
    match ClaimBoard.create workers size with
    | .ok board => ⟨.answered (.number s.boards.size), { s with boards := s.boards.push board }, []⟩
    | .error fault => ⟨.faulted fault, s, []⟩
  | .releaseBoard board => s.onBoard board fun b => b.serve profile .release
  | .claim board index => s.onBoard board fun b => b.serve profile (.claim index)
  | .isClaimed board index => s.onBoard board fun b => b.serve profile (.isClaimed index)
  | .walk board worker limit =>
    s.onBoard board fun b =>
      let walk := s.recorder.walk profile b worker (s.table.visitor (listVisits limit)) #[]
      (.ok (.walk walk.visits.toList (stopOf walk.result)), walk.board)
  | .totals => s.reading (.ok (.totals s.totals))
  | .table request =>
    let (result, table) := s.table.serve request
    ⟨.ofResult result, s.withTable table, []⟩

/-- Carries a command out and replies to it with what the capture level takes in. -/
def step (profile : Profile) (capture : Level) (s : Session τ n m) (command : Command) :
    Reply × Session τ n m :=
  let effect := s.execute profile command
  (⟨effect.verdict, effect.session.recorder.phase,
    Event.captured profile capture effect.events⟩, effect.session)

def run (profile : Profile) (capture : Level) (s : Session τ n m) :
    List Command → List Reply × Session τ n m
  | [] => ([], s)
  | command :: rest =>
    let (reply, s) := s.step profile capture command
    let (replies, s) := s.run profile capture rest
    (reply :: replies, s)

end Session

end Evacuation
