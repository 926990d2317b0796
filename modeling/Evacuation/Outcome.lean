import Evacuation.Heap

/-!
# What operations come to

A summary says how one pause went.  The totals add up all pauses: they number the pauses as they are
begun, and count failures as the pauses are sealed.

While a pause is recorded its recorder keeps a span open.  Opening and closing the span, listing a
region, sealing the recording and resetting the recorder are events.  Each has a level, and a capture
level admits the events that are not more verbose than itself.

An operation that stops at a fault still leaves the state it had reached and the events it had emitted;
an outcome keeps all three apart.  An answer is what a part of the library hands back for a request.
-/

namespace Evacuation

/-! ## Summaries and totals -/

structure Summary where
  pauseId : UInt64
  regionsFailed : UInt64
  maxRegions : UInt32
  nanos : UInt64
  deriving DecidableEq, Repr

namespace Summary

def zero : Summary :=
  ⟨0, 0, 0, 0⟩

def evacuationFailed (s : Summary) : Bool :=
  decide (0 < s.regionsFailed)

end Summary

/-- What all pauses add up to; each counter wraps at the word size. -/
structure Totals where
  pauses : UInt64
  pausesWithFailures : UInt64
  regionsFailed : UInt64
  deriving DecidableEq, Repr

namespace Totals

def zero : Totals :=
  ⟨0, 0, 0⟩

/-- Counts a pause as begun and hands out its number, one more than the pauses before it; a checking
profile faults where that sum wraps, with the pause counted. -/
def openPause (profile : Profile) (t : Totals) : Except Fault UInt64 × Totals :=
  let counted := { t with pauses := t.pauses + 1 }
  if profile.checks && counted.pauses == 0 then
    (.error .sumOverflow, counted)
  else
    (.ok counted.pauses, counted)

def add (t : Totals) (s : Summary) : Totals :=
  if s.evacuationFailed then
    { t with
      pausesWithFailures := t.pausesWithFailures + 1
      regionsFailed := t.regionsFailed + s.regionsFailed }
  else
    t

theorem pauses_add (t : Totals) (s : Summary) : (t.add s).pauses = t.pauses := by
  unfold add
  split <;> rfl

theorem pausesWithFailures_add (t : Totals) (s : Summary) :
    (t.add s).pausesWithFailures =
      t.pausesWithFailures + if s.evacuationFailed then 1 else 0 := by
  unfold add
  split <;> simp

theorem regionsFailed_add (t : Totals) (s : Summary) :
    (t.add s).regionsFailed = t.regionsFailed + s.regionsFailed := by
  unfold add
  split
  · rfl
  · next none =>
    have zero : s.regionsFailed = 0 := by
      simpa [Summary.evacuationFailed, UInt64.not_lt] using none
    rw [zero, UInt64.add_zero]

end Totals

/-! ## Events -/

inductive Level where
  | off
  | info
  | debug
  | trace
  deriving DecidableEq, Repr

namespace Level

def rank : Level → Nat
  | off => 0
  | info => 1
  | debug => 2
  | trace => 3

def name : Level → String
  | off => "OFF"
  | info => "INFO"
  | debug => "DEBUG"
  | trace => "TRACE"

end Level

/-- What a recorder reports while it works.  A parent is the number of the pause whose span is open. -/
inductive Event where
  | spanOpened (pauseId : UInt64) (maxRegions : UInt32)
  | spanClosed (pauseId : UInt64)
  | regionRecorded (parent : Option UInt64) (region : UInt32) (slot : UInt64)
  | recordingSealed (parent : Option UInt64) (summary : Summary)
  | recorderReset (regionsCleared : UInt64)
  deriving DecidableEq, Repr

namespace Event

/-- The level of an event; the end of a span goes by the level at which it began. -/
def level : Event → Level
  | regionRecorded .. => .trace
  | spanOpened .. | spanClosed .. | recordingSealed .. | recorderReset .. => .debug

def name : Event → String
  | spanOpened .. | spanClosed .. => "evac_failure_recording"
  | regionRecorded .. => "region_recorded"
  | recordingSealed .. => "recording_sealed"
  | recorderReset .. => "evac_failure_reset"

def parent : Event → Option UInt64
  | regionRecorded parent .. | recordingSealed parent .. => parent
  | spanOpened .. | spanClosed .. | recorderReset .. => none

def fields : Event → List (String × Nat)
  | spanOpened pauseId maxRegions =>
    [("pause_id", pauseId.toNat), ("max_regions", maxRegions.toNat)]
  | spanClosed _ => []
  | regionRecorded _ region slot => [("region", region.toNat), ("slot", slot.toNat)]
  | recordingSealed _ summary =>
    [("pause_id", summary.pauseId.toNat), ("regions_failed", summary.regionsFailed.toNat),
     ("max_regions", summary.maxRegions.toNat)]
  | recorderReset regionsCleared => [("regions_cleared", regionsCleared.toNat)]

end Event

namespace Level

def admits (capture : Level) (event : Event) : Bool :=
  decide (event.level.rank ≤ capture.rank)

theorem admits_trace (event : Event) : trace.admits event = true := by
  cases event <;> rfl

theorem admits_info (event : Event) : info.admits event = false := by
  cases event <;> rfl

theorem admits_off (event : Event) : off.admits event = false := by
  cases event <;> rfl

end Level

namespace Event

/-- The events that a profile emits and a capture level takes in. -/
def captured (profile : Profile) (capture : Level) (events : List Event) : List Event :=
  if profile.traces then events.filter capture.admits else []

theorem captured_trace (events : List Event) : captured .debug .trace events = events := by
  simp [captured, Profile.traces, Level.admits_trace]

end Event

/-! ## Outcomes -/

structure Outcome (σ α : Type) where
  result : Except Fault α
  state : σ
  events : List Event

namespace Outcome

variable {σ α : Type}

def done (answer : α) (state : σ) (events : List Event) : Outcome σ α :=
  ⟨.ok answer, state, events⟩

def faulted (fault : Fault) (state : σ) (events : List Event) : Outcome σ α :=
  ⟨.error fault, state, events⟩

end Outcome

/-! ## Answers -/

inductive Answer where
  | nothing
  | flag (value : Bool)
  | number (value : Nat)
  | numbers (values : List Nat)
  | text (value : String)
  | slot (value : Option UInt32)
  /-- The first values of a listing, and how many there were to come before and after them. -/
  | taken (before : Nat) (values : List UInt32) (after : Nat)
  | region (region : Region)
  | regions (regions : List Region)
  | summary (summary : Summary)
  | totals (totals : Totals)
  | series (wins : List Bool) (stop : Option Fault)
  | walk (seen : List UInt32) (stop : Option Fault)
  deriving DecidableEq, Repr

namespace Answer

def indices (values : List UInt32) : Answer :=
  .numbers (values.map UInt32.toNat)

def take (n : Nat) (listing : List UInt32) : Answer :=
  .taken listing.length (listing.take n) (listing.length - n)

end Answer

end Evacuation
