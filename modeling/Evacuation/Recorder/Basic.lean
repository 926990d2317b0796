import Evacuation.Journal.Request
import Evacuation.RegionSet.Request
import Evacuation.Table.Request

/-!
# Recorders

A recorder notes, once for each region, that evacuation failed in it during a collection pause.

    idle --beginPause--> recording --sealPause--> sealed --reset--> idle

Recording a region takes four atomic steps: `claim` its index, and for the one call that wins the
claim `reserve` a slot of the journal, `store` the index there, and note the failure on the region
behind the index.  `record` takes them without a break; the steps are public because many threads may
record at the same time.
-/

namespace Evacuation

/-- The failed regions of one pause, and where the recorder stands within it. -/
structure Recorder where
  failed : RegionSet
  journal : Journal
  phase : Phase
  /-- The number of the latest pause, zero before the first. -/
  pauseId : UInt64
  span : Option UInt64
  deriving DecidableEq, Repr

namespace Recorder

def ofSize (size : UInt32) : Recorder :=
  ⟨.empty size.toNat, .empty size.toNat, .idle, 0, none⟩

def maxRegions (r : Recorder) : UInt32 :=
  UInt32.ofNat r.failed.capacity

def spanEnd (r : Recorder) : List Event :=
  r.span.toList.map .spanClosed

def clear (r : Recorder) : Recorder :=
  { r with failed := r.failed.clear, journal := r.journal.clear }

/-- Forgets every region and makes room for `size` of them; room is never given up. -/
def prepare (r : Recorder) (size : UInt32) : Recorder :=
  if r.maxRegions < size then
    { r with failed := r.failed.resize size.toNat, journal := r.journal.resize size.toNat }
  else
    r.clear

def beginPause (profile : Profile) (offered requested : UInt32) (r : Recorder) (totals : Totals) :
    Outcome (Recorder × Totals) Unit :=
  if profile.checks && r.phase == .recording then
    .faulted .alreadyRecording (r, totals) []
  else if profile.checks && decide (offered < requested) then
    .faulted (.beyondTable requested offered) (r, totals) []
  else
    let r := r.prepare requested
    match totals.openPause profile with
    | (.error fault, totals) => .faulted fault (r, totals) []
    | (.ok pauseId, totals) =>
      .done () ({ r with phase := .recording, pauseId, span := some pauseId }, totals)
        (.spanOpened pauseId r.maxRegions :: r.spanEnd)

/-! ## The steps of recording -/

/-- Claims a region for the calling thread; `true` tells that no call of this pause came before. -/
def claim (profile : Profile) (r : Recorder) (index : UInt32) : Except Fault Bool × Recorder :=
  if profile.checks && r.phase != .recording then
    (.error (.recordOutside r.phase), r)
  else
    let (won, failed) := r.failed.claim index.toNat
    (won, { r with failed })

def reserve (r : Recorder) : UInt64 × Recorder :=
  let (slot, journal) := r.journal.reserve
  (slot, { r with journal })

def store (profile : Profile) (r : Recorder) (slot : UInt64) (index : UInt32) :
    Except Fault Unit × Recorder :=
  let (result, journal) := r.journal.store profile slot index
  (result, { r with journal })

/-- Records a failure in a region; `true` tells that this call was the first of the pause, which has
listed the region and told it. -/
def record {τ : Type} [Layout τ] (profile : Profile) (r : Recorder) (table : Table τ)
    (index : UInt32) : Outcome (Recorder × Table τ) Bool :=
  match r.claim profile index with
  | (.error fault, r) => .faulted fault (r, table) []
  | (.ok false, r) => .done false (r, table) []
  | (.ok true, r) =>
    let (slot, r) := r.reserve
    match r.store profile slot index with
    | (.error fault, r) => .faulted fault (r, table) []
    | (.ok (), r) =>
      let events := [.regionRecorded r.span index slot]
      match table.note index with
      | (.error fault, table) => .faulted fault (r, table) events
      | (.ok (), table) => .done true (r, table) events

/-! ## The end of a pause -/

/-- Seals the recording once every thread is done, sums the pause up and adds it to the totals.  The
time since the pause was begun comes from the caller's clock. -/
def sealPause (profile : Profile) (nanos : UInt64) (r : Recorder) (totals : Totals) :
    Outcome (Recorder × Totals) Summary :=
  if profile.checks && r.phase != .recording then
    .faulted (.sealOutside r.phase) (r, totals) []
  else
    let summary : Summary := ⟨r.pauseId, r.journal.cursor, r.maxRegions, nanos⟩
    .done summary ({ r with phase := .sealed }, totals.add summary)
      [.recordingSealed r.span summary]

/-- Forgets every region and returns to the idle phase; the number of the pause stays. -/
def reset (r : Recorder) : Recorder × List Event :=
  ({ r.clear with phase := .idle, span := none }, .recorderReset r.journal.cursor :: r.spanEnd)

/-! ## Reading -/

/-- Results may be read unless threads may still be recording. -/
def readable (profile : Profile) (r : Recorder) : Except Fault Unit :=
  if profile.checks && r.phase == .recording then .error .readWhileRecording else .ok ()

def count (profile : Profile) (r : Recorder) : Except Fault Nat := do
  r.readable profile
  return r.journal.length

def anyFailed (profile : Profile) (r : Recorder) : Except Fault Bool := do
  return decide (0 < (← r.count profile))

def contains (profile : Profile) (r : Recorder) (index : UInt32) : Except Fault Bool := do
  r.readable profile
  r.failed.contains index.toNat

def listing (profile : Profile) (r : Recorder) : Except Fault (List UInt32) := do
  r.readable profile
  return r.journal.entries

end Recorder

end Evacuation
