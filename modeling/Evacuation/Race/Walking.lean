import Evacuation.Recorder.Walk

/-!
# Races of walking workers

Several workers walk one sealed listing at the same time and share a claim board.  Trying an entry
and visiting it are two atomic steps, and a schedule says which worker takes the next one.
-/

namespace Evacuation.Race

structure Walker where
  ahead : List Nat
  held : Option UInt32
  /-- The entries visited, latest first. -/
  visits : List UInt32
  stop : Option Fault
  deriving DecidableEq, Repr

namespace Walker

def start : Except Fault (List Nat) → Walker
  | .ok positions => ⟨positions, none, [], none⟩
  | .error fault => ⟨[], none, [], some fault⟩

def finished (w : Walker) : Bool :=
  w.stop.isSome || (w.held.isNone && w.ahead.isEmpty)

def visited (w : Walker) : List UInt32 :=
  w.visits.reverse

def halt (w : Walker) (fault : Fault) : Walker :=
  { w with stop := some fault }

def visit (w : Walker) (index : UInt32) : Walker :=
  { w with held := none, visits := index :: w.visits }

theorem visited_visit (w : Walker) (index : UInt32) :
    (w.visit index).visited = w.visited ++ [index] := by
  simp [visit, visited]

variable {τ : Type} [Layout τ]

/-- One atomic step of a worker; a worker that is finished stands still. -/
def step (journal : Journal) (table : Table τ) (w : Walker) (board : ClaimBoard) :
    Walker × ClaimBoard :=
  if w.stop.isSome then
    (w, board)
  else
    match w.held, w.ahead with
    | some index, _ =>
      match table.region index with
      | .error fault => (w.halt fault, board)
      | .ok _ => (w.visit index, board)
    | none, [] => (w, board)
    | none, position :: rest =>
      match claimEntry journal board position with
      | (.error fault, board) => (w.halt fault, board)
      | (.ok held, board) => ({ w with ahead := rest, held }, board)

end Walker

structure Walking (τ : Type) where
  journal : Journal
  table : Table τ
  board : ClaimBoard
  walkers : List Walker

namespace Walking

variable {τ : Type}

def start (profile : Profile) (recorder : Recorder) (table : Table τ) (board : ClaimBoard)
    (workers : List UInt64) : Walking τ :=
  ⟨recorder.journal, table, board,
   workers.map fun worker => Walker.start (recorder.route profile board worker)⟩

def finished (race : Walking τ) : Bool :=
  race.walkers.all Walker.finished

def inTurn (race : Walking τ) : List Nat :=
  race.walkers.zipIdx.flatMap fun (w, worker) => List.replicate (2 * w.ahead.length) worker

def visited (race : Walking τ) : List UInt32 :=
  race.walkers.flatMap Walker.visited

variable [Layout τ]

def step (race : Walking τ) (worker : Nat) : Walking τ :=
  match race.walkers[worker]? with
  | none => race
  | some w =>
    let (w, board) := w.step race.journal race.table race.board
    { race with board, walkers := race.walkers.set worker w }

def run (race : Walking τ) (schedule : List Nat) : Walking τ :=
  schedule.foldl step race

theorem run_cons (race : Walking τ) (worker : Nat) (rest : List Nat) :
    race.run (worker :: rest) = (race.step worker).run rest := rfl

theorem run_append (race : Walking τ) (first rest : List Nat) :
    race.run (first ++ rest) = (race.run first).run rest :=
  List.foldl_append

end Walking

end Evacuation.Race
