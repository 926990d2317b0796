import Evacuation.Proofs.Recorder.Admission
import Evacuation.Proofs.Recorder.Winners
import Evacuation.Recorder.Walk

/-!
# Recorders that cannot be told apart

A recorder that is reset keeps what its journal held, the room it had, and the number of its last
pause.  The slots beyond the listing are never read, and the number is read only where a pause is
sealed; so recorders that agree in everything else answer every call alike and stay alike.

`Recorder.Alike` is the relation and `Recorder.Agree` what it makes of the outcomes of a call; there is
one lemma for each call.
-/

namespace Evacuation

def Summary.renumber (pauseId : UInt64) (summary : Summary) : Summary :=
  { summary with pauseId }

def Event.renumber (pauseId : UInt64) : Event → Event
  | recordingSealed parent summary => recordingSealed parent (summary.renumber pauseId)
  | event => event

namespace Recorder

/-- Recorders with the same regions failed and listed, in the same phase and under the same span; if
`numbered`, the number of their pause is the same, and if not, none is going on as far as is checked. -/
structure Alike (p : Profile) (numbered : Prop) (q r : Recorder) : Prop where
  linked : q.Linked
  other : r.Linked
  failed : r.failed = q.failed
  entries : r.journal.entries = q.journal.entries
  phase : r.phase = q.phase
  span : r.span = q.span
  pauseId : numbered → r.pauseId = q.pauseId
  paused : ¬numbered → p.checks = true → q.phase ≠ .recording

/-- Outcomes of one call on two recorders, with the same answer, events and state of what is shared,
that leave the recorders alike. -/
structure Agree {σ α : Type} (p : Profile) (numbered : Prop) (o o' : Outcome (Recorder × σ) α) :
    Prop where
  result : o'.result = o.result
  events : o'.events = o.events
  shared : o'.state.2 = o.state.2
  recorder : Alike p numbered o.state.1 o'.state.1

section Outcomes

variable {σ α β : Type} {p : Profile} {numbered : Prop} {o o' : Outcome (Recorder × σ) α}

theorem Agree.map (h : Agree p numbered o o') (change : α → β) :
    Agree p numbered (o.map change) (o'.map change) :=
  ⟨congrArg (Except.map change) h.result, h.events, h.shared, h.recorder⟩

theorem Agree.after (h : Agree p numbered o o') (earlier : List Event) :
    Agree p numbered (o.after earlier) (o'.after earlier) :=
  ⟨h.result, congrArg (earlier ++ ·) h.events, h.shared, h.recorder⟩

theorem Agree.tally {o o' : Outcome (Recorder × σ) Series} (h : Agree p numbered o o') :
    Agree p numbered o.tally o'.tally :=
  ⟨congrArg (Except.bind · Series.tally) h.result, h.events, h.shared, h.recorder⟩

end Outcomes

namespace Alike

variable {p : Profile} {numbered : Prop} {q r : Recorder}

/-- A recorder is like itself, its number included. -/
theorem refl (linked : q.Linked) : Alike p True q q where
  linked := linked
  other := linked
  failed := rfl
  entries := rfl
  phase := rfl
  span := rfl
  pauseId := fun _ => rfl
  paused := fun unnumbered => absurd trivial unnumbered

theorem congr {other : Prop} (h : Alike p numbered q r) (same : numbered ↔ other) :
    Alike p other q r :=
  propext same ▸ h

theorem cursor (h : Alike p numbered q r) : r.journal.cursor = q.journal.cursor := by
  rw [h.other.cursor_eq, h.linked.cursor_eq, h.entries]

theorem length (h : Alike p numbered q r) : r.journal.length = q.journal.length := by
  rw [Journal.length, h.cursor, Journal.length]

theorem maxRegions (h : Alike p numbered q r) : r.maxRegions = q.maxRegions := by
  rw [Recorder.maxRegions, h.failed, Recorder.maxRegions]

theorem spanEnd (h : Alike p numbered q r) : r.spanEnd = q.spanEnd := by
  rw [Recorder.spanEnd, h.span, Recorder.spanEnd]

/-- A position is read alike, whatever the slots beyond the listing hold. -/
theorem get?_eq (h : Alike p numbered q r) (position : Nat) :
    r.journal.get? position = q.journal.get? position := by
  rw [Journal.get?_eq h.other.reserved, Journal.get?_eq h.linked.reserved, h.entries]

/-! ## Pauses -/

theorem prepare (h : Alike p numbered q r) (size : UInt32) :
    Alike p numbered (q.prepare size) (r.prepare size) where
  linked := (h.linked.blank_prepare size).linked
  other := (h.other.blank_prepare size).linked
  failed := by
    rw [Recorder.prepare, Recorder.prepare, h.maxRegions]
    split
    · exact congrArg (RegionSet.resize · size.toNat) h.failed
    · exact congrArg RegionSet.clear h.failed
  entries := by
    rw [(h.other.blank_prepare size).entries_eq_nil, (h.linked.blank_prepare size).entries_eq_nil]
  phase := by rw [phase_prepare, phase_prepare, h.phase]
  span := by rw [span_prepare, span_prepare, h.span]
  pauseId := by
    intro same
    rw [pauseId_prepare, pauseId_prepare, h.pauseId same]
  paused := by
    rw [phase_prepare]
    exact h.paused

/-- A pause is begun on both or on none; where it is begun, the recorders have its number. -/
theorem beginPause (h : Alike p numbered q r) (offered requested : UInt32) (totals : Totals) :
    Agree p (numbered ∨ (q.beginPause p offered requested totals).result = .ok ())
      (q.beginPause p offered requested totals) (r.beginPause p offered requested totals) := by
  have same : r.admits p offered requested = q.admits p offered requested := by
    rw [admits, h.phase, admits]
  have reason : r.refusal offered requested = q.refusal offered requested := by
    rw [refusal, h.phase, refusal]
  have prepared := h.prepare requested
  cases admitted : q.admits p offered requested with
  | false =>
      rw [beginPause_of_refused admitted, beginPause_of_refused (same.trans admitted), reason]
      exact ⟨rfl, rfl, rfl, h.congr (or_iff_left (by simp [Outcome.faulted])).symm⟩
  | true =>
      rw [beginPause_of_admits admitted, beginPause_of_admits (same.trans admitted)]
      rcases totals.openPause p with ⟨fault | pauseId, counted⟩
      · exact ⟨rfl, rfl, rfl, prepared.congr (or_iff_left (by simp [Outcome.faulted])).symm⟩
      · dsimp only
        rw [prepared.maxRegions, prepared.spanEnd]
        refine ⟨rfl, rfl, rfl, ?_⟩
        exact
          { linked := prepared.linked.congr rfl rfl
            other := prepared.other.congr rfl rfl
            failed := prepared.failed
            entries := prepared.entries
            phase := rfl
            span := rfl
            pauseId := fun _ => rfl
            paused := fun unnumbered => absurd (Or.inr rfl) unnumbered }

/-- Sealing sums up the same pause, of which the number may differ. -/
theorem sealPause (h : Alike p numbered q r) (nanos : UInt64) (totals : Totals) :
    (q.sealPause p nanos totals).result =
        (r.sealPause p nanos totals).result.map (Summary.renumber q.pauseId) ∧
      (q.sealPause p nanos totals).events =
        (r.sealPause p nanos totals).events.map (Event.renumber q.pauseId) ∧
      (r.sealPause p nanos totals).state.2 = (q.sealPause p nanos totals).state.2 ∧
      Alike p numbered (q.sealPause p nanos totals).state.1 (r.sealPause p nanos totals).state.1 := by
  unfold Recorder.sealPause
  rw [h.phase]
  split
  · exact ⟨rfl, rfl, rfl, h⟩
  · dsimp only [Outcome.done]
    rw [h.cursor, h.maxRegions, h.span]
    refine ⟨rfl, rfl, rfl, ?_⟩
    exact
      { linked := h.linked.congr rfl rfl
        other := h.other.congr rfl rfl
        failed := h.failed
        entries := h.entries
        phase := rfl
        span := rfl
        pauseId := h.pauseId
        paused := fun _ _ => nofun }

/-- Where the number is the same, or a recording would have to go on, sealing sees no difference. -/
theorem sealPause_of_numbered (h : Alike p numbered q r) (known : numbered ∨ p.checks = true)
    (nanos : UInt64) (totals : Totals) :
    Agree p numbered (q.sealPause p nanos totals) (r.sealPause p nanos totals) := by
  obtain ⟨_, _, shared, recorder⟩ := h.sealPause nanos totals
  by_cases same : numbered
  · refine ⟨?_, ?_, shared, recorder⟩ <;>
      rw [Recorder.sealPause, Recorder.sealPause, h.phase, h.cursor, h.maxRegions, h.span,
        h.pauseId same] <;>
      split <;> rfl
  · have checks := known.resolve_left same
    have refused : (p.checks && q.phase != .recording) = true := by
      simp [checks, h.paused same checks]
    have refused' : (p.checks && r.phase != .recording) = true := by
      rw [h.phase]
      exact refused
    refine ⟨?_, ?_, shared, recorder⟩ <;>
      rw [Recorder.sealPause, Recorder.sealPause, if_pos refused, if_pos refused', h.phase] <;> rfl

/-! ## Reading -/

theorem readable (h : Alike p numbered q r) : r.readable p = q.readable p := by
  rw [Recorder.readable, h.phase, Recorder.readable]

theorem count (h : Alike p numbered q r) : r.count p = q.count p := by
  rw [Recorder.count, h.readable, h.length, Recorder.count]

theorem anyFailed (h : Alike p numbered q r) : r.anyFailed p = q.anyFailed p := by
  rw [Recorder.anyFailed, h.count, Recorder.anyFailed]

theorem contains (h : Alike p numbered q r) (index : UInt32) :
    r.contains p index = q.contains p index := by
  rw [Recorder.contains, h.readable, h.failed, Recorder.contains]

theorem listing (h : Alike p numbered q r) : r.listing p = q.listing p := by
  rw [Recorder.listing, h.readable, h.entries, Recorder.listing]

theorem route (h : Alike p numbered q r) (board : ClaimBoard) (worker : UInt64) :
    r.route p board worker = q.route p board worker := by
  rw [Recorder.route, h.readable, h.cursor, h.length, Recorder.route]

/-- A walk tries the same entries. -/
theorem walkOver (h : Alike p numbered q r) {σ : Type} (visit : Visitor σ) (positions : List Nat)
    (board : ClaimBoard) (state : σ) :
    Recorder.walkOver r.journal visit positions board state =
      Recorder.walkOver q.journal visit positions board state := by
  induction positions generalizing board state with
  | nil => rfl
  | cons position rest ih =>
      have entry : claimEntry r.journal board position = claimEntry q.journal board position := by
        rw [claimEntry, h.get?_eq, claimEntry]
      simp only [Recorder.walkOver, entry, ih]

theorem walk (h : Alike p numbered q r) {σ : Type} (board : ClaimBoard) (worker : UInt64)
    (visit : Visitor σ) (state : σ) :
    r.walk p board worker visit state = q.walk p board worker visit state := by
  rw [Recorder.walk, h.route, Recorder.walk]
  cases q.route p board worker with
  | error fault => rfl
  | ok positions => exact h.walkOver visit positions board state

/-! ## Forgetting -/

theorem reset (h : Alike p numbered q r) :
    r.reset.2 = q.reset.2 ∧ Alike p numbered q.reset.1 r.reset.1 := by
  refine ⟨?_, ?_⟩
  · rw [Recorder.reset, Recorder.reset, h.cursor, h.spanEnd]
  · exact
      { linked := h.linked.after_reset
        other := h.other.after_reset
        failed := congrArg RegionSet.clear h.failed
        entries := (Journal.entries_clear _).trans (Journal.entries_clear _).symm
        phase := rfl
        span := rfl
        pauseId := h.pauseId
        paused := fun _ _ => nofun }

theorem enlist (h : Alike p numbered q r) {index : UInt32} (inside : index.toNat < q.failed.capacity)
    (free : q.failed.bit index.toNat = false) :
    Alike p numbered (q.enlist index) (r.enlist index) where
  linked := h.linked.enlist inside free
  other := h.other.enlist (h.failed ▸ inside) (h.failed ▸ free)
  failed := congrArg (RegionSet.insert · index.toNat) h.failed
  entries := by
    have slot := h.linked.slot_of_free inside free
    have narrow : q.journal.capacity < UInt32.size := h.linked.room ▸ h.linked.narrow
    have slot' := h.other.slot_of_free (h.failed ▸ inside) (h.failed ▸ free)
    have narrow' : r.journal.capacity < UInt32.size := h.other.room ▸ h.other.narrow
    rw [Recorder.enlist, Recorder.enlist, Journal.entries_push slot narrow,
      Journal.entries_push slot' narrow', h.entries]
  phase := h.phase
  span := h.span
  pauseId := h.pauseId
  paused := h.paused

variable {τ : Type} [Layout τ]

theorem record (h : Alike p numbered q r) (table : Table τ) (index : UInt32) :
    Agree p numbered (q.record p table index) (r.record p table index) := by
  cases allowed : p.checks && q.phase != .recording with
  | true =>
      rw [record_of_refused allowed, record_of_refused (h.phase ▸ allowed), h.phase]
      exact ⟨rfl, rfl, rfl, h⟩
  | false =>
      have allowed' : (p.checks && r.phase != .recording) = false := h.phase ▸ allowed
      by_cases inside : index.toNat < q.failed.capacity
      · cases taken : q.failed.bit index.toNat with
        | true =>
            rw [record_of_taken h.linked.wellFormed allowed taken,
              record_of_taken h.other.wellFormed allowed' (h.failed ▸ taken)]
            exact ⟨rfl, rfl, rfl, h⟩
        | false =>
            rw [h.linked.record_of_free allowed inside taken,
              h.other.record_of_free allowed' (h.failed ▸ inside) (h.failed ▸ taken), h.span,
              h.cursor]
            exact ⟨rfl, rfl, rfl, h.enlist inside taken⟩
      · have beyond := Nat.le_of_not_lt inside
        rw [record_of_le allowed beyond, record_of_le allowed' (h.failed ▸ beyond), h.failed]
        exact ⟨rfl, rfl, rfl, h⟩

theorem recordAll (h : Alike p numbered q r) (table : Table τ) (indices : List UInt32) :
    Agree p numbered (q.recordAll p table indices) (r.recordAll p table indices) := by
  induction indices generalizing q r table with
  | nil => exact ⟨rfl, rfl, rfl, h⟩
  | cons index rest ih =>
      have agree := h.record table index
      rcases first : q.record p table index with ⟨result, state, events⟩
      rcases other : r.record p table index with ⟨result', state', events'⟩
      rw [first, other] at agree
      obtain ⟨rfl, rfl, shared, recorder⟩ : result' = result ∧ events' = events ∧
        state'.2 = state.2 ∧ Alike p numbered state.1 state'.1 :=
        ⟨agree.result, agree.events, agree.shared, agree.recorder⟩
      cases result' with
      | error fault =>
          rw [recordAll_of_error first, recordAll_of_error other]
          exact ⟨rfl, rfl, shared, recorder⟩
      | ok won =>
          rw [recordAll_of_ok first, recordAll_of_ok other, shared]
          exact ((ih recorder state.2).map _).after events'

theorem recordRange (h : Alike p numbered q r) (table : Table τ) (first limit : UInt32)
    (stride : Nat) :
    Agree p numbered (q.recordRange p table first limit stride)
      (r.recordRange p table first limit stride) := by
  rw [recordRange_eq, recordRange_eq]
  exact (h.recordAll table _).tally

end Alike

end Recorder

end Evacuation
