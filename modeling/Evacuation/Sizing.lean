import Evacuation.ClaimBoard.Request

/-!
# Sizing

How large a claim board is to be, and for how many workers.
-/

namespace Evacuation

structure Sizing where
  maxRegions : UInt32
  workers : UInt64
  deriving DecidableEq, Repr

namespace Sizing

def defaultMaxRegions : UInt32 := 2048

def defaultWorkers : UInt64 := 4

/-- The sizing for a host that runs `parallelism` workers at a time, if it says so. -/
def forHost (parallelism : Option UInt64) : Sizing :=
  ⟨defaultMaxRegions, parallelism.getD defaultWorkers⟩

def board (s : Sizing) : Except Fault ClaimBoard :=
  ClaimBoard.create s.workers s.maxRegions

def inspect (s : Sizing) : String :=
  Text.record "EvacFailureConfig"
    [("max_regions", toString s.maxRegions), ("workers", toString s.workers)]

end Sizing

end Evacuation
