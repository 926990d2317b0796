/-!
# Faults

A profile says which contracts are checked while the library runs and whether it emits events.  An
operation stops at a fault, and each way in which it can stop is a cause of its own: `Fault.message`
words all of them, and `Fault.isContract` tells the causes that only a checking profile raises.

An inspection text is the one-line form in which a value shows its parts.
-/

namespace Evacuation

/-! ## Inspection texts -/

namespace Text

def commaSeparated (items : List String) : String :=
  ", ".intercalate items

def list (items : List String) : String :=
  "[" ++ commaSeparated items ++ "]"

def record (name : String) (fields : List (String × String)) : String :=
  name ++ " \x7b " ++ commaSeparated (fields.map fun field => field.1 ++ ": " ++ field.2) ++ " \x7d"

end Text

/-! ## Profiles -/

/-- The three ways the library can be run. -/
inductive Profile where
  /-- Contracts and arithmetic are checked, events are emitted. -/
  | debug
  /-- Nothing is checked and arithmetic wraps, events are emitted. -/
  | release
  /-- Nothing is checked and nothing is emitted. -/
  | plain
  deriving DecidableEq, Repr

namespace Profile

def checks : Profile → Bool
  | debug => true
  | release | plain => false

def traces : Profile → Bool
  | debug | release => true
  | plain => false

end Profile

/-! ## Phases -/

inductive Phase where
  | idle
  | recording
  | sealed
  deriving DecidableEq, Repr

namespace Phase

def name : Phase → String
  | idle => "Idle"
  | recording => "Recording"
  | sealed => "Sealed"

end Phase

/-! ## Faults -/

inductive Fault where
  | regionOutOfRange (index capacity : Nat)
  | indexOutOfBounds (size index : Nat)
  | journalFull (slot capacity : Nat)
  | noWorkers
  | workerOutOfRange (worker workers : UInt64)
  | productOverflow
  | sumOverflow
  | alreadyRecording
  | beyondTable (requested available : UInt32)
  | recordOutside (phase : Phase)
  | sealOutside (phase : Phase)
  | readWhileRecording
  | notCommitted (index : UInt32)
  | visitorStopped (index : UInt32)
  deriving DecidableEq, Repr

namespace Fault

def phaseComparison (operator reason : String) (left right : Phase) : String :=
  s!"assertion `left {operator} right` failed: {reason}\n  left: {left.name}\n right: {right.name}"

def message : Fault → String
  | regionOutOfRange index capacity => s!"region index {index} out of bitmap range {capacity}"
  | indexOutOfBounds size index => s!"index out of bounds: the len is {size} but the index is {index}"
  | journalFull slot capacity => s!"append log overflow: slot {slot} of {capacity}"
  | noWorkers => "RegionClaimer needs at least one worker"
  | workerOutOfRange worker workers => s!"worker {worker} out of range for {workers} workers"
  | productOverflow => "attempt to multiply with overflow"
  | sumOverflow => "attempt to add with overflow"
  | alreadyRecording =>
    phaseComparison "!=" "pre_collection called during a recording phase" .recording .recording
  | beyondTable requested available =>
    s!"tracker sized to {requested} regions but the heap resolves only {available}"
  | recordOutside phase =>
    phaseComparison "==" "record called outside a recording phase" phase .recording
  | sealOutside phase =>
    phaseComparison "==" "post_collection called outside a recording phase" phase .recording
  | readWhileRecording =>
    phaseComparison "!=" "failed regions read while workers may still be recording"
      .recording .recording
  | notCommitted index => s!"region {index} not committed"
  | visitorStopped index => s!"visitor stopped at region {index}"

/-- Whether a fault reports a broken contract, which only a checking profile looks for. -/
def isContract : Fault → Bool
  | journalFull .. | workerOutOfRange .. | productOverflow | sumOverflow | alreadyRecording
  | beyondTable .. | recordOutside .. | sealOutside .. | readWhileRecording => true
  | regionOutOfRange .. | indexOutOfBounds .. | noWorkers | notCommitted .. | visitorStopped .. =>
    false

end Fault

end Evacuation
