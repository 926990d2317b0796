import Evacuation.Recorder.Basic

/-!
# The admission of a pause

The checks of a profile refuse a pause, and then nothing changes, or they admit it, and then its room
is prepared whatever becomes of it.  An admitted pause begins unless the pauses cannot be counted any
further.
-/

namespace Evacuation

theorem Totals.openPause_of_error {p : Profile} {totals counted : Totals} {fault : Fault}
    (full : totals.openPause p = (.error fault, counted)) :
    fault = .sumOverflow ∧ p.checks = true ∧ totals.pauses + 1 = 0 := by
  unfold openPause at full
  dsimp only at full
  split at full
  · next wrapped =>
    obtain ⟨checks, zero⟩ := Bool.and_eq_true_iff.mp wrapped
    exact ⟨(Except.error.inj (Prod.mk.inj full).1).symm, checks, beq_iff_eq.mp zero⟩
  · cases (Prod.mk.inj full).1

namespace Recorder

/-- Whether the checks of a profile let a pause begin. -/
def admits (p : Profile) (r : Recorder) (offered requested : UInt32) : Bool :=
  !(p.checks && (r.phase == .recording || decide (offered < requested)))

def refusal (r : Recorder) (offered requested : UInt32) : Fault :=
  if r.phase == .recording then .alreadyRecording else .beyondTable requested offered

section Admission

variable {p : Profile} {r : Recorder} {offered requested : UInt32}

theorem admits_iff : r.admits p offered requested = true ↔
    (p.checks = true → r.phase ≠ .recording ∧ requested ≤ offered) := by
  cases checks : p.checks <;> simp [admits, checks, UInt32.not_lt]

/-- A pause that the checks refuse changes nothing. -/
theorem beginPause_of_refused (refused : r.admits p offered requested = false) (totals : Totals) :
    r.beginPause p offered requested totals =
      .faulted (r.refusal offered requested) (r, totals) [] := by
  simp only [admits, Bool.not_eq_false', Bool.and_eq_true, Bool.or_eq_true] at refused
  obtain ⟨checks, reason⟩ := refused
  cases recording : r.phase == .recording with
  | true => simp [beginPause, refusal, checks, recording]
  | false =>
      have beyond : decide (offered < requested) = true := by
        rw [recording] at reason
        exact reason.resolve_left Bool.false_ne_true
      simp [beginPause, refusal, checks, recording, beyond]

/-- A pause that the checks admit has its room prepared, and begins if the pauses can be counted. -/
theorem beginPause_of_admits (admitted : r.admits p offered requested = true) (totals : Totals) :
    r.beginPause p offered requested totals =
      match totals.openPause p with
      | (.error fault, counted) => .faulted fault (r.prepare requested, counted) []
      | (.ok pauseId, counted) =>
        .done ()
          ({ r.prepare requested with phase := .recording, pauseId, span := some pauseId }, counted)
          (.spanOpened pauseId (r.prepare requested).maxRegions ::
            (r.prepare requested).spanEnd) := by
  simp only [admits, Bool.not_eq_true', Bool.and_eq_false_iff, Bool.or_eq_false_iff] at admitted
  have passed : (p.checks && r.phase == .recording) = false ∧
      (p.checks && decide (offered < requested)) = false := by
    rcases admitted with unchecked | ⟨phase, within⟩
    · simp [unchecked]
    · simp [phase, within]
  rw [beginPause, passed.1, passed.2]
  rfl

/-- A pause begins if the checks admit it and the pauses can be counted. -/
theorem beginPause_ok_iff {totals : Totals} :
    (r.beginPause p offered requested totals).result = .ok () ↔
      (p.checks = true →
        r.phase ≠ .recording ∧ requested ≤ offered ∧ totals.pauses + 1 ≠ 0) := by
  cases admitted : r.admits p offered requested with
  | false =>
      rw [beginPause_of_refused admitted]
      have refused := mt admits_iff.mpr (Bool.eq_false_iff.mp admitted)
      refine ⟨nofun, fun accepted => absurd (fun checks => ?_) refused⟩
      exact ⟨(accepted checks).1, (accepted checks).2.1⟩
  | true =>
      have passed := admits_iff.mp admitted
      rw [beginPause_of_admits admitted]
      rcases opened : totals.openPause p with ⟨fault | pauseId, counted⟩
      · obtain ⟨_, checks, wrapped⟩ := Totals.openPause_of_error opened
        exact ⟨nofun, fun accepted => absurd wrapped (accepted checks).2.2⟩
      · refine ⟨fun _ checks => ⟨(passed checks).1, (passed checks).2, ?_⟩, fun _ => rfl⟩
        intro wrapped
        simp [Totals.openPause, checks, wrapped] at opened

theorem refusal_ne (r : Recorder) (offered requested : UInt32) :
    r.refusal offered requested ≠ .sumOverflow := by
  unfold refusal
  split <;> nofun

theorem prepare_zero (r : Recorder) : r.prepare 0 = r.clear :=
  if_neg UInt32.not_lt_zero

theorem span_prepare (r : Recorder) (size : UInt32) : (r.prepare size).span = r.span := by
  unfold prepare
  split <;> rfl

theorem phase_prepare (r : Recorder) (size : UInt32) : (r.prepare size).phase = r.phase := by
  unfold prepare
  split <;> rfl

theorem pauseId_prepare (r : Recorder) (size : UInt32) : (r.prepare size).pauseId = r.pauseId := by
  unfold prepare
  split <;> rfl

theorem spanEnd_prepare (r : Recorder) (size : UInt32) : (r.prepare size).spanEnd = r.spanEnd := by
  rw [spanEnd, span_prepare, spanEnd]

end Admission

/-! ## Preparing a recorder that was reset -/

end Recorder

end Evacuation
