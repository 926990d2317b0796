import Evacuation.Proofs.Recorder.History
import Evacuation.Proofs.Session.Acts

/-!
# The events of a run replay its listings

In a checking profile in which every event is captured, the events that a recorder emits since it was
last made to forget tell what it has listed: the regions in the order of their slots, under the span
of the pause, and then at most one summary.  Each span is closed once, where the next one is opened or
where the recorder is reset.

`Session.Held` ties the events of a chapter to the recorder that emitted them, and one act carries it
on; `Session.replays_run` is what remains of it for a reader of the events alone.
-/

namespace Evacuation

namespace Event

def opened? : Event → Option (UInt64 × UInt32)
  | spanOpened pauseId maxRegions => some (pauseId, maxRegions)
  | _ => none

def closed? : Event → Option UInt64
  | spanClosed pauseId => some pauseId
  | _ => none

def lists : Event → Bool
  | regionRecorded .. => true
  | _ => false

theorem opened?_listings (span : Option UInt64) (slot : UInt64) (regions : List UInt32) :
    (listings span slot regions).filterMap opened? = [] := by
  induction regions generalizing slot with
  | nil => rfl
  | cons region rest ih => exact ih (slot + 1)

theorem closed?_listings (span : Option UInt64) (slot : UInt64) (regions : List UInt32) :
    (listings span slot regions).filterMap closed? = [] := by
  induction regions generalizing slot with
  | nil => rfl
  | cons region rest ih => exact ih (slot + 1)

theorem countP_listings (span : Option UInt64) (slot : UInt64) (regions : List UInt32) :
    (listings span slot regions).countP lists = regions.length := by
  induction regions generalizing slot with
  | nil => rfl
  | cons region rest ih =>
      rw [listings, List.countP_cons_of_pos rfl, ih, List.length_cons]

theorem opened?_spanEnd (r : Recorder) : r.spanEnd.filterMap opened? = [] := by
  unfold Recorder.spanEnd
  cases r.span <;> rfl

theorem closed?_spanEnd (r : Recorder) : r.spanEnd.filterMap closed? = r.span.toList := by
  unfold Recorder.spanEnd
  cases r.span <;> rfl

/-! What the events of each act say of spans. -/

section Spans

variable (pauseId cleared : UInt64) (maxRegions : UInt32) (span : Option UInt64) (summary : Summary)
  (r : Recorder)

theorem opened?_opening : (spanOpened pauseId maxRegions :: r.spanEnd).filterMap opened? =
    [(pauseId, maxRegions)] :=
  congrArg ((pauseId, maxRegions) :: ·) (opened?_spanEnd r)

theorem closed?_opening :
    (spanOpened pauseId maxRegions :: r.spanEnd).filterMap closed? = r.span.toList :=
  closed?_spanEnd r

theorem opened?_reset : r.reset.2.filterMap opened? = [] :=
  opened?_spanEnd r

theorem closed?_reset : r.reset.2.filterMap closed? = r.span.toList :=
  closed?_spanEnd r

theorem opened?_sealing : [recordingSealed span summary].filterMap opened? = [] := rfl

theorem closed?_sealing : [recordingSealed span summary].filterMap closed? = [] := rfl

end Spans

end Event

/-- The events since a recorder was last made to forget, under the span opened then, if one was, next to
the regions that it lists. -/
inductive Replays : Option (UInt64 × UInt32) → List Event → List UInt32 → Prop
  | blank : Replays none [] []
  | recording {pauseId : UInt64} {maxRegions : UInt32} {regions : List UInt32}
      (distinct : regions.Nodup) (below : ∀ region ∈ regions, region < maxRegions) :
      Replays (some (pauseId, maxRegions)) (Event.listings (some pauseId) 0 regions) regions
  | sealed {pauseId : UInt64} {maxRegions : UInt32} {regions : List UInt32} (nanos : UInt64)
      (distinct : regions.Nodup) (below : ∀ region ∈ regions, region < maxRegions) :
      Replays (some (pauseId, maxRegions))
        (Event.listings (some pauseId) 0 regions ++
          [.recordingSealed (some pauseId)
            ⟨pauseId, UInt64.ofNat regions.length, maxRegions, nanos⟩])
        regions

namespace Session

variable {τ : Type} {n m : Nat}

/-! ## What a log tells of events -/

def eventsOf (steps : List (Entry (Session τ n m) Command Reply)) : List Event :=
  steps.flatMap fun entry => entry.answer.events

def spansOpened (k : Fin n) (log : List (Entry (Session τ n m) Command Reply)) :
    List (UInt64 × UInt32) :=
  (eventsOf (stepsOf k log)).filterMap Event.opened?

def spansClosed (k : Fin n) (log : List (Entry (Session τ n m) Command Reply)) : List UInt64 :=
  (eventsOf (stepsOf k log)).filterMap Event.closed?

def spansOpen (k : Fin n) (log : List (Entry (Session τ n m) Command Reply)) : List UInt64 :=
  ((spansOpened k log).map Prod.fst).drop (spansClosed k log).length

/-- The span that was opened when a recorder was last made to forget. -/
def heading (k : Fin n) (log : List (Entry (Session τ n m) Command Reply)) :
    Option (UInt64 × UInt32) :=
  ((stepsOf k log).rdropWhile fun entry => !forgets entry).getLast?.bind fun entry =>
    entry.answer.events.findSome? Event.opened?

/-- Where spans begin and end: a pause that begins opens one and then closes the one open before it; a
reset tells how many regions were listed and then closes the span; nothing else touches spans. -/
structure Punctuates (earlier : List (Entry (Session τ n m) Command Reply))
    (entry : Entry (Session τ n m) Command Reply) : Prop where
  begun : ∀ pauseId, begun? entry = some pauseId →
    entry.answer.events =
      .spanOpened pauseId (entry.after.recorderAt entry.before.current).maxRegions ::
        (spansOpen entry.before.current earlier).map .spanClosed
  reset : entry.request = .reset →
    entry.answer.events =
      .recorderReset (UInt64.ofNat
          ((eventsOf (chapter entry.before.current earlier)).countP Event.lists)) ::
        (spansOpen entry.before.current earlier).map .spanClosed
  unattached : entry.request = .reset → ∀ event ∈ entry.answer.events, event.parent = none
  other : begun? entry = none → entry.request ≠ .reset →
    entry.answer.events.filterMap Event.opened? = [] ∧
      entry.answer.events.filterMap Event.closed? = []

section Log

variable (log : List (Entry (Session τ n m) Command Reply))
  (entry : Entry (Session τ n m) Command Reply)

theorem eventsOf_concat : eventsOf (log ++ [entry]) = eventsOf log ++ entry.answer.events := by
  simp [eventsOf]

theorem spansOpened_concat : spansOpened entry.before.current (log ++ [entry]) =
    spansOpened entry.before.current log ++ entry.answer.events.filterMap Event.opened? := by
  rw [spansOpened, stepsOf_concat_self, eventsOf_concat, List.filterMap_append, spansOpened]

theorem spansClosed_concat : spansClosed entry.before.current (log ++ [entry]) =
    spansClosed entry.before.current log ++ entry.answer.events.filterMap Event.closed? := by
  rw [spansClosed, stepsOf_concat_self, eventsOf_concat, List.filterMap_append, spansClosed]

theorem heading_concat : heading entry.before.current (log ++ [entry]) =
    if forgets entry then entry.answer.events.findSome? Event.opened?
    else heading entry.before.current log := by
  rw [heading, stepsOf_concat_self, List.rdropWhile_concat]
  cases forgets entry with
  | true => simp
  | false => rfl

end Log

/-! ## Chapters and their recorder -/

/-- The events of a chapter, under its heading, next to the recorder that emitted them. -/
inductive Held : Option (UInt64 × UInt32) → List Event → Recorder → Prop
  | blank {r : Recorder} (paused : r.phase ≠ .recording) (unlisted : r.journal.entries = []) :
      Held none [] r
  | recording {r : Recorder} (phase : r.phase = .recording) (span : r.span = some r.pauseId) :
      Held (some (r.pauseId, r.maxRegions))
        (Event.listings (some r.pauseId) 0 r.journal.entries) r
  | sealed {r : Recorder} (nanos : UInt64) (paused : r.phase ≠ .recording) :
      Held (some (r.pauseId, r.maxRegions))
        (Event.listings (some r.pauseId) 0 r.journal.entries ++
          [.recordingSealed (some r.pauseId)
            ⟨r.pauseId, UInt64.ofNat r.journal.entries.length, r.maxRegions, nanos⟩])
        r

section Held

variable {span : Option (UInt64 × UInt32)} {events : List Event} {r : Recorder}

theorem Held.replays (h : Held span events r) (linked : r.Linked) :
    Replays span events r.journal.entries := by
  have below : ∀ region ∈ r.journal.entries, region < r.maxRegions := by
    intro region member
    rw [UInt32.lt_iff_toNat_lt, linked.toNat_maxRegions]
    exact linked.listed.lt_capacity linked.wellFormed member
  cases h with
  | blank _ unlisted =>
      rw [unlisted]
      exact .blank
  | recording => exact .recording linked.listed.nodup below
  | sealed nanos => exact .sealed nanos linked.listed.nodup below

/-- The events of a chapter list as many regions as the recorder. -/
theorem Held.countP_lists (h : Held span events r) : events.countP Event.lists =
    r.journal.entries.length := by
  cases h with
  | blank _ unlisted =>
      rw [unlisted]
      rfl
  | recording => exact Event.countP_listings ..
  | sealed nanos =>
      rw [List.countP_append, Event.countP_listings]
      rfl

theorem Held.of_recording (h : Held span events r) (phase : r.phase = .recording) :
    r.span = some r.pauseId ∧ span = some (r.pauseId, r.maxRegions) ∧
      events = Event.listings (some r.pauseId) 0 r.journal.entries := by
  cases h with
  | blank paused => exact absurd phase paused
  | recording _ span => exact ⟨span, rfl, rfl⟩
  | sealed _ paused => exact absurd phase paused

/-- A pause that begins heads a chapter without events. -/
theorem Held.opening (unlisted : r.journal.entries = []) (pauseId : UInt64) :
    Held (some (pauseId, r.maxRegions)) []
      { r with phase := .recording, pauseId, span := some pauseId } := by
  have begun := Held.recording (r := { r with phase := .recording, pauseId, span := some pauseId })
    rfl rfl
  rw [unlisted] at begun
  exact begun

/-- What a recording lists is added to its chapter. -/
theorem Held.enlistAll (h : Held span events r) (linked : r.Linked) (phase : r.phase = .recording)
    {won : List UInt32} (entries : (r.enlistAll won).journal.entries = r.journal.entries ++ won) :
    Held span (events ++ Event.listings r.span r.journal.cursor won) (r.enlistAll won) := by
  obtain ⟨parent, rfl, rfl⟩ := h.of_recording phase
  have listed : Event.listings (some r.pauseId) 0 (r.enlistAll won).journal.entries =
      Event.listings (some r.pauseId) 0 r.journal.entries ++
        Event.listings r.span r.journal.cursor won := by
    rw [parent, entries, Event.listings_append, UInt64.zero_add, linked.cursor_eq]
  have more := Held.recording (r := r.enlistAll won) ((r.phase_enlistAll won).trans phase)
    (by rw [Recorder.span_enlistAll, Recorder.pauseId_enlistAll, parent])
  rw [Recorder.pauseId_enlistAll, listed, Recorder.maxRegions, Recorder.capacity_enlistAll] at more
  exact more

/-- The summary of a recording ends its chapter. -/
theorem Held.sealing (h : Held span events r) (linked : r.Linked) (phase : r.phase = .recording)
    (nanos : UInt64) :
    Held span
      (events ++ [.recordingSealed r.span ⟨r.pauseId, r.journal.cursor, r.maxRegions, nanos⟩])
      { r with phase := .sealed } := by
  obtain ⟨parent, rfl, rfl⟩ := h.of_recording phase
  have summary : Event.recordingSealed r.span ⟨r.pauseId, r.journal.cursor, r.maxRegions, nanos⟩ =
      .recordingSealed (some r.pauseId)
        ⟨r.pauseId, UInt64.ofNat r.journal.entries.length, r.maxRegions, nanos⟩ := by
    rw [parent, linked.cursor_eq]
  rw [summary]
  exact Held.sealed (r := { r with phase := .sealed }) nanos (by simp)

end Held

variable [Layout τ] {s : Session τ n m} {log : List (Entry (Session τ n m) Command Reply)}
  {entry : Entry (Session τ n m) Command Reply}

/-- An act on a recorder is added to its chapter, or opens another. -/
theorem Held.act (linked : entry.before.recorder.Linked) (act : Act .debug .trace entry)
    (h : Held (heading entry.before.current log) (eventsOf (chapter entry.before.current log))
      entry.before.recorder) :
    Held (heading entry.before.current (log ++ [entry]))
      (eventsOf (chapter entry.before.current (log ++ [entry])))
      (entry.before.recorderAfter .debug entry.request) := by
  rw [heading_concat, chapter_concat]
  cases act with
  | begins regions pauseId _ _ admitted _ recorder events =>
      have forgot : forgets entry = true := by simp [forgets, admitted]
      rw [if_pos forgot, if_pos forgot, events, Event.captured_trace, recorder]
      exact .opening (linked.blank_prepare regions).entries_eq_nil pauseId
  | exhausts regions _ admitted _ paused recorder events =>
      have forgot : forgets entry = true := by simp [forgets, admitted]
      rw [if_pos forgot, if_pos forgot, events, recorder]
      apply Held.blank
      · rw [Recorder.phase_prepare]
        exact paused
      · exact (linked.blank_prepare regions).entries_eq_nil
  | resets request recorder events =>
      have forgot : forgets entry = true := by simp [forgets, request]
      have unopened : entry.answer.events.findSome? Event.opened? = none := by
        rw [events, Event.captured_trace, Recorder.reset, Recorder.spanEnd]
        cases entry.before.recorder.span <;> rfl
      rw [if_pos forgot, if_pos forgot, unopened, recorder]
      exact .blank (by simp [Recorder.reset]) (Journal.entries_clear _)
  | records won kept refused recorder entries events =>
      rw [kept, if_neg Bool.false_ne_true, if_neg Bool.false_ne_true, eventsOf_concat, events,
        recorder, Event.captured_trace]
      by_cases phase : entry.before.recorder.phase = .recording
      · exact h.enlistAll linked phase entries
      · obtain rfl : won = [] := refused (by simp [Profile.checks, phase])
        rw [Event.listings, List.append_nil]
        exact h
  | seals nanos kept allowed recorder events =>
      rw [kept, if_neg Bool.false_ne_true, if_neg Bool.false_ne_true, eventsOf_concat, events,
        recorder, Event.captured_trace]
      exact h.sealing linked (by simpa [Profile.checks] using allowed) nanos
  | rests kept recorder events =>
      rw [kept, if_neg Bool.false_ne_true, if_neg Bool.false_ne_true, eventsOf_concat, events,
        recorder, List.append_nil]
      exact h

/-! ## Spans and their recorder -/

/-- The spans that a recorder opened are those it closed, and the one that it still holds. -/
def Spanned (k : Fin n) (log : List (Entry (Session τ n m) Command Reply)) (r : Recorder) : Prop :=
  (spansOpened k log).map Prod.fst = spansClosed k log ++ r.span.toList

omit [Layout τ] in
theorem Spanned.spansOpen_eq {k : Fin n} {r : Recorder} (h : Spanned k log r) :
    spansOpen k log = r.span.toList := by
  rw [spansOpen, h, List.drop_left]

theorem Spanned.act (act : Act .debug .trace entry)
    (h : Spanned entry.before.current log entry.before.recorder) :
    Spanned entry.before.current (log ++ [entry])
      (entry.before.recorderAfter .debug entry.request) := by
  rw [Spanned, spansOpened_concat, spansClosed_concat, List.map_append, h]
  cases act with
  | begins regions pauseId _ _ _ _ recorder events =>
      rw [events, Event.captured_trace, Event.opened?_opening, Event.closed?_opening, recorder]
      rfl
  | exhausts regions _ _ _ _ recorder events =>
      rw [events, recorder, Recorder.span_prepare]
      simp
  | resets _ recorder events =>
      rw [events, Event.captured_trace, Event.opened?_reset, Event.closed?_reset, recorder]
      simp [Recorder.reset]
  | records won _ _ recorder _ events =>
      rw [events, Event.captured_trace, Event.opened?_listings, Event.closed?_listings, recorder,
        Recorder.span_enlistAll]
      simp
  | seals nanos _ _ recorder events =>
      rw [events, Event.captured_trace, Event.opened?_sealing, Event.closed?_sealing, recorder]
      simp
  | rests _ recorder events =>
      rw [events, recorder]
      simp

/-- An act opens and closes spans where it should. -/
theorem Act.punctuates (act : Act .debug .trace entry) (linked : entry.before.recorder.Linked)
    (now : entry.after.recorderAt entry.before.current =
      entry.before.recorderAfter .debug entry.request)
    (held : Held (heading entry.before.current log) (eventsOf (chapter entry.before.current log))
      entry.before.recorder)
    (spanned : Spanned entry.before.current log entry.before.recorder) : Punctuates log entry := by
  have ends : (spansOpen entry.before.current log).map Event.spanClosed =
      entry.before.recorder.spanEnd := by
    rw [spanned.spansOpen_eq]
    rfl
  have quiet (unbegun : begun? entry = none) (unreset : entry.request ≠ .reset)
      (opened : entry.answer.events.filterMap Event.opened? = [])
      (closed : entry.answer.events.filterMap Event.closed? = []) : Punctuates log entry :=
    { begun := fun _ begun => absurd (unbegun.symm.trans begun) nofun
      reset := fun request => absurd request unreset
      unattached := fun request => absurd request unreset
      other := fun _ _ => ⟨opened, closed⟩ }
  cases act with
  | begins regions pauseId request begun _ _ recorder events =>
      constructor
      · intro other same
        obtain rfl := Option.some.inj (begun.symm.trans same)
        rw [events, Event.captured_trace, ends, now, recorder]
        rfl
      · exact fun reset => absurd (request.symm.trans reset) nofun
      · exact fun reset => absurd (request.symm.trans reset) nofun
      · exact fun unbegun => absurd (begun.symm.trans unbegun) nofun
  | resets request recorder events =>
      constructor
      · intro pauseId begun
        simp [begun?, request] at begun
      · intro _
        rw [events, Event.captured_trace, ends, held.countP_lists, ← linked.cursor_eq]
        rfl
      · intro _ event member
        rw [events, Event.captured_trace] at member
        rcases List.mem_cons.mp member with rfl | closing
        · rfl
        · obtain ⟨_, _, rfl⟩ := List.mem_map.mp closing
          rfl
      · exact fun _ unreset => absurd request unreset
  | exhausts regions unbegun admitted _ _ _ events =>
      refine quiet unbegun ?_ (by rw [events]; rfl) (by rw [events]; rfl)
      intro reset
      simp [admitted?, reset] at admitted
  | records won kept _ _ _ events =>
      rw [Event.captured_trace] at events
      exact quiet (begun?_of_kept kept) (request_ne_of_kept kept)
        (by rw [events, Event.opened?_listings]) (by rw [events, Event.closed?_listings])
  | seals nanos kept _ _ events =>
      rw [Event.captured_trace] at events
      exact quiet (begun?_of_kept kept) (request_ne_of_kept kept)
        (by rw [events, Event.opened?_sealing]) (by rw [events, Event.closed?_sealing])
  | rests kept _ events =>
      exact quiet (begun?_of_kept kept) (request_ne_of_kept kept)
        (by rw [events]; rfl) (by rw [events]; rfl)

/-! ## Runs -/

structure Followed (log : List (Entry (Session τ n m) Command Reply)) (s : Session τ n m) :
    Prop where
  linked : s.Linked
  held : ∀ k, Held (heading k log) (eventsOf (chapter k log)) (s.recorderAt k)
  spanned : ∀ k, Spanned k log (s.recorderAt k)

theorem followed_start (tables : Vector (Table τ) m) (seat : Fin n → Fin m) (current : Fin n) :
    Followed [] (start tables seat current) where
  linked := linked_start tables seat current
  held := by
    intro k
    rw [recorderAt_start]
    exact .blank nofun (Recorder.blank_ofSize _).entries_eq_nil
  spanned := by
    intro k
    rw [recorderAt_start]
    rfl

theorem Followed.step (h : Followed log s) (command : Command) :
    Followed (log ++ [Entry.of (fun s => s.step .debug .trace) s command])
      (s.step .debug .trace command).2 := by
  have act := acts (p := .debug) .trace h.linked.recorder command
  have after := recorderAt_step .debug .trace h.linked.recorder command
  refine ⟨h.linked.step command, ?held, ?spanned⟩
  case held =>
    intro k
    rw [after]
    split
    · next same =>
      subst same
      exact (h.held s.current).act h.linked.recorder act
    · next apart =>
      unfold heading
      rw [chapter_concat_of_ne _ _ apart, stepsOf_concat_of_ne _ _ apart]
      exact h.held k
  case spanned =>
    intro k
    rw [after]
    split
    · next same =>
      subst same
      exact (h.spanned s.current).act act
    · next apart =>
      unfold Spanned spansOpened spansClosed
      rw [stepsOf_concat_of_ne _ _ apart]
      exact h.spanned k

/-- The next step opens and closes spans where it should. -/
theorem Followed.punctuates (h : Followed log s) (command : Command) :
    Punctuates log (Entry.of (fun s => s.step .debug .trace) s command) := by
  have act := acts (p := .debug) .trace h.linked.recorder command
  have after := recorderAt_step .debug .trace h.linked.recorder command s.current
  exact act.punctuates h.linked.recorder (after.trans (if_pos rfl)) (h.held s.current)
    (h.spanned s.current)

/-- In a checking profile in which every event is captured, over every run on any number of recorders:
the events since a recorder was last made to forget replay its listing, which is what it reads out
whenever it may be read; the spans it opened are those it closed, in the same order, and at most one
more; and they are opened and closed where pauses begin and at resets. -/
theorem replays_run (tables : Vector (Table τ) m) (seat : Fin n → Fin m) (current : Fin n)
    (commands : List Command) :
    let log := transcript (fun s => s.step .debug .trace) (start tables seat current) commands
    let last := ((start tables seat current).run .debug .trace commands).2
    (∀ k, ∃ regions, Replays (heading k log) (eventsOf (chapter k log)) regions ∧
        ((last.recorderAt k).readable .debug = .ok () →
          (last.recorderAt k).listing .debug = .ok regions)) ∧
      (∀ k, (spansOpened k log).map Prod.fst = spansClosed k log ++ spansOpen k log ∧
        (spansOpen k log).length ≤ 1) ∧
      ∀ earlier entry, earlier ++ [entry] <+: log → Punctuates earlier entry := by
  intro log last
  have followed : Followed log last := by
    unfold log last
    rw [run_snd]
    exact Transcript.induction Followed (followed_start tables seat current)
      (fun _ _ command h => h.step command) commands
  refine ⟨?_, ?_, ?_⟩
  · intro k
    have linked := followed.linked k
    exact ⟨_, (followed.held k).replays linked, (linked.coherent (τ := τ) .debug).listing_eq⟩
  · intro k
    have spanned := followed.spanned k
    rw [spanned.spansOpen_eq]
    refine ⟨spanned, ?_⟩
    cases (last.recorderAt k).span <;> simp
  · intro earlier entry reached
    obtain ⟨now, command, rfl, before⟩ := Transcript.holds_before Followed
      (followed_start tables seat current) (fun _ _ command h => h.step command) reached
    exact before.punctuates command

end Session

end Evacuation
