import Evacuation.Race.Recording
import Evacuation.Race.Walking

/-!
# Cycles of pauses

One recorder goes through several pauses of one heap.  In each pause threads race to record regions,
the recording is sealed, workers race to walk the listing, and then the claim board and the recorder
are reset; the regions keep their notes from pause to pause.  A scheduler chooses the interleavings.
-/

namespace Evacuation.Race

/-- What the threads of every pause are to do. -/
structure Workload where
  regions : UInt32
  records : List (List UInt32)
  workers : UInt64
  deriving DecidableEq, Repr

structure Scheduler (τ : Type) where
  recording : Recording τ → List Nat
  walking : Walking τ → List Nat

def Scheduler.inTurn (τ : Type) : Scheduler τ :=
  ⟨Recording.inTurn, Walking.inTurn⟩

/-- What a pause shows, apart from the order in which its threads ran. -/
structure PauseReport where
  wins : Nat
  stops : List (Option Fault)
  sealed : Except Fault Summary
  listed : List UInt32
  claimed : List Nat
  visited : List UInt32
  noted : List Region

structure Cycle (τ : Type) where
  recorder : Recorder
  table : Table τ
  board : ClaimBoard
  totals : Totals

namespace Cycle

def start (work : Workload) : Except Fault (Cycle Plan) := do
  let board ← ClaimBoard.create work.workers work.regions
  return ⟨.ofSize work.regions, .ofSize work.regions, board, .zero⟩

def ascending (indices : List UInt32) : List UInt32 :=
  indices.mergeSort fun a b => decide (a ≤ b)

variable {τ : Type} [Layout τ]

/-- One pause with the given interleavings. -/
def pause (profile : Profile) (work : Workload) (scheduler : Scheduler τ) (c : Cycle τ) :
    PauseReport × Cycle τ :=
  let begun := c.recorder.beginPause profile c.table.maxRegions work.regions c.totals
  let race := Recording.start begun.state.1 c.table work.records
  let recorded := race.run profile (scheduler.recording race)
  let closed := recorded.recorder.sealPause profile 0 begun.state.2
  let recorder := closed.state.1
  let race := Walking.start profile recorder recorded.table c.board
    ((List.range work.workers.toNat).map UInt64.ofNat)
  let walked := race.run (scheduler.walking race)
  let report : PauseReport := {
    wins := recorded.wins
    stops := recorded.writers.map Writer.stop
    sealed := closed.result
    listed := ascending recorder.journal.entries
    claimed := recorder.failed.members
    visited := ascending walked.visited
    noted := recorded.table.heap.regions.toList.filter fun region => region.notes != 0 }
  (report, ⟨recorder.reset.1, recorded.table, walked.board.release, closed.state.2⟩)

def run (profile : Profile) (work : Workload) (scheduler : Nat → Scheduler τ) (c : Cycle τ) :
    Nat → List PauseReport × Cycle τ
  | 0 => ([], c)
  | pauses + 1 =>
    let (reports, c) := run profile work scheduler c pauses
    let (report, c) := c.pause profile work (scheduler pauses)
    (reports ++ [report], c)

end Cycle

end Evacuation.Race
