import Evacuation.Proofs.Recorder.History
import Evacuation.Proofs.Session.Acts

/-!
# Sealed recorders

In a checking profile nothing touches a recorder that is sealed but its own next pause and its own
reset: recordings, seals and pauses that are out of turn are refused, walks and readers only look, and
what becomes of the other recorders, the tables and the claim boards leaves it alone.  So its readers
are told the same at every moment, and what they are told is what the summary of the pause says.  A pause
that the checks admit once all the numbers of pauses are used up is no exception to this: it does not
begin, but by then the recorder has forgotten its listing.

`Session.Act.keeps_sealed` is one act, `Session.stable_run` what follows for a run, and
`Session.stable_run_counted_out` a run that uses the numbers up.
-/

namespace Evacuation

namespace Recorder

/-- What the readers of a sealed recorder are told, given the summary of its pause and its listing. -/
structure Reads (summary : Summary) (listing : List UInt32) (r : Recorder) : Prop where
  phase : r.phase = .sealed
  maxRegions : r.maxRegions = summary.maxRegions
  listing_eq : r.listing .debug = .ok listing
  length_eq : listing.length = summary.regionsFailed.toNat
  count_eq : r.count .debug = .ok summary.regionsFailed.toNat
  anyFailed_eq : r.anyFailed .debug = .ok summary.evacuationFailed
  contains_eq : ∀ index : UInt32, r.contains .debug index =
    if index < summary.maxRegions then .ok (decide (index ∈ listing))
    else .error (.regionOutOfRange index.toNat summary.maxRegions.toNat)

/-- A sealed recorder tells what a summary of it says. -/
theorem Linked.reads {r : Recorder} (h : r.Linked) (sealed : r.phase = .sealed) {summary : Summary}
    (maxRegions : summary.maxRegions = r.maxRegions)
    (regionsFailed : summary.regionsFailed = r.journal.cursor) :
    r.Reads summary r.journal.entries := by
  have readable : r.readable .debug = .ok () := readable_of_checks fun _ => by simp [sealed]
  have counted : r.count .debug = .ok summary.regionsFailed.toNat := by
    rw [regionsFailed]
    simp [count, readable, bind, Except.bind, pure, Except.pure, Journal.length]
  refine ⟨sealed, maxRegions.symm, ?_, ?_, counted, ?_, ?_⟩
  · simp [listing, readable, bind, Except.bind, pure, Except.pure]
  · rw [h.length_entries, regionsFailed]
    rfl
  · simp [anyFailed, counted, Summary.evacuationFailed, UInt64.lt_iff_toNat_lt, bind, Except.bind,
      pure, Except.pure]
  · intro index
    have inside : index < r.maxRegions ↔ index.toNat < r.failed.capacity := by
      rw [UInt32.lt_iff_toNat_lt, h.toNat_maxRegions]
    rw [h.contains readable, maxRegions, h.toNat_maxRegions]
    simp only [inside]

end Recorder

namespace Session

variable {τ : Type} {n m : Nat} [Layout τ] {capture : Level} {s : Session τ n m}

/-- A sealed recorder stays as it is in every act that does not make it forget. -/
theorem Act.keeps_sealed {entry : Entry (Session τ n m) Command Reply}
    (act : Act .debug capture entry) (kept : forgets entry = false)
    (sealed : entry.before.recorder.phase = .sealed) :
    entry.before.recorderAfter .debug entry.request = entry.before.recorder := by
  cases act with
  | begins _ _ _ _ admitted => simp [forgets, admitted] at kept
  | exhausts _ _ admitted => simp [forgets, admitted] at kept
  | resets request => simp [forgets, request] at kept
  | records won _ refused recorder =>
      have none : won = [] := refused (by simp [Profile.checks, sealed])
      rw [recorder, none]
      rfl
  | seals _ _ allowed => simp [Profile.checks, sealed] at allowed
  | rests _ recorder => exact recorder

/-- A sealed recorder stays as it is through a run that does not make it forget. -/
theorem recorderAt_run_of_sealed (linked : s.Linked) {k : Fin n}
    (sealed : (s.recorderAt k).phase = .sealed) {commands : List Command}
    (kept : ∀ entry ∈ stepsOf k (transcript (fun s => s.step .debug capture) s commands),
      forgets entry = false) :
    (s.run .debug capture commands).2.recorderAt k = s.recorderAt k := by
  refine recorderAt_induction (fun r => r = s.recorderAt k) (fun entry => forgets entry = false)
    ?_ linked rfl commands kept
  intro entry act kept same
  rw [act.keeps_sealed kept (by rw [same]; exact sealed), same]

/-- The recorder in use after a step that seals a pause, and what its readers are told then. -/
theorem sealPause_step (linked : s.Linked) {nanos : UInt64} {summary : Summary}
    (sealed : (s.step .debug capture (.sealPause nanos)).1.verdict = .answered (.summary summary)) :
    ((s.step .debug capture (.sealPause nanos)).2.recorderAt s.current).Reads summary
      s.recorder.journal.entries := by
  have sealed : sealed? (Entry.of (fun s => s.step .debug capture) s (.sealPause nanos)) =
      some summary := by
    simp [sealed?, sealed]
  obtain ⟨_, recorder, _, rfl⟩ := sealed_step sealed
  have after : Linked (s.step .debug capture (.sealPause nanos)).2 := linked.step (.sealPause nanos)
  have now := after s.current
  rw [recorderAt_step .debug capture linked.recorder, if_pos rfl, recorder] at now ⊢
  exact now.reads rfl rfl rfl

/-- In a checking profile, over every run on any number of recorders: from the moment a pause is sealed,
the readers of its recorder are told the same in every later state that is reached without a step in
which that recorder begins a pause or is reset, and what they are told is what the summary says.  The
pauses of the run leave a number over, so that none is admitted without being begun. -/
theorem stable_run (capture : Level) (tables : Vector (Table τ) m) (seat : Fin n → Fin m)
    (current : Fin n) (commands : List Command) (nanos : UInt64) (summary : Summary)
    (sealed : (((start tables seat current).run .debug capture commands).2.step .debug capture
      (.sealPause nanos)).1.verdict = .answered (.summary summary)) :
    let k := ((start tables seat current).run .debug capture commands).2.current
    let s := ((start tables seat current).run .debug capture (commands ++ [.sealPause nanos])).2
    ∃ listing : List UInt32, ∀ others : List Command,
      (∀ entry ∈ stepsOf k (transcript (fun s => s.step .debug capture) s others),
        begun? entry = none ∧ entry.request ≠ .reset) →
      (pauseIds (transcript (fun s => s.step .debug capture) (start tables seat current)
        (commands ++ [.sealPause nanos] ++ others))).length < UInt64.size - 1 →
      ((s.run .debug capture others).2.recorderAt k).Reads summary listing := by
  intro k s
  have linked := linked_run .debug capture tables seat current
  obtain ⟨listing, reads⟩ : ∃ listing, (s.recorderAt k).Reads summary listing := by
    have here : s = (((start tables seat current).run .debug capture commands).2.step .debug capture
        (.sealPause nanos)).2 := congrArg Prod.snd (run_append ..)
    rw [here]
    exact ⟨_, sealPause_step (linked commands) sealed⟩
  refine ⟨listing, fun others kept few => ?_⟩
  have forgets (entry) (member : entry ∈ stepsOf k (transcript (fun s => s.step .debug capture) s
      others)) : forgets entry = false := by
    have whole : entry ∈ transcript (fun s => s.step .debug capture) (start tables seat current)
        (commands ++ [.sealPause nanos] ++ others) := by
      rw [Transcript.transcript_append, ← run_snd]
      exact List.mem_append_right _ (List.mem_of_mem_filter member)
    have unmade : admitted? entry = none := by
      by_contra admitted
      exact begun_of_admitted (fun _ => few) whole admitted (kept entry member).1
    simp [Session.forgets, unmade, (kept entry member).2]
  rw [recorderAt_run_of_sealed (linked _) reads.phase forgets]
  exact reads

/-- Two recorders that share a table and a claim board: one is sealed, is asked for what it refuses and
is walked over twice, while the table is cleared and grows and the other has a pause of its own. -/
theorem stable_run_two_recorders :
    let commands : List Command := [.use 1, .beginPause 4, .recordAll [2, 0, 2]]
    let others : List Command :=
      [.record 1, .beginPause 9, .sealPause 8, .openBoard 2 4, .walk 0 1 (some 1), .table .clearAll,
        .table (.commit 6), .use 0, .beginPause 6, .record 5, .reset, .releaseBoard 0, .use 1,
        .walk 0 0 none]
    let first : Session Plan 2 1 := start #v[⟨.growing 4, .ofSize 6⟩] (fun _ => 0) 0
    let s := (first.run .debug .trace (commands ++ [.sealPause 5])).2
    ((first.run .debug .trace commands).2.step .debug .trace (.sealPause 5)).1.verdict =
        .answered (.summary ⟨1, 2, 4, 5⟩) ∧
      (∀ entry ∈ stepsOf 1 (transcript (fun s => s.step .debug .trace) s others),
        begun? entry = none ∧ entry.request ≠ .reset) ∧
      (pauseIds (transcript (fun s => s.step .debug .trace) first
        (commands ++ [.sealPause 5] ++ others))).length < UInt64.size - 1 ∧
      ((s.run .debug .trace others).2.recorderAt 1).Reads ⟨1, 2, 4, 5⟩ [2, 0] := by
  intro commands others first s
  have sealed : ((first.run .debug .trace commands).2.step .debug .trace (.sealPause 5)).1.verdict =
      .answered (.summary ⟨1, 2, 4, 5⟩) := by decide +kernel
  have kept : ∀ entry ∈ stepsOf 1 (transcript (fun s => s.step .debug .trace) s others),
      begun? entry = none ∧ entry.request ≠ .reset := by decide +kernel
  have few : (pauseIds (transcript (fun s => s.step .debug .trace) first
      (commands ++ [.sealPause 5] ++ others))).length < UInt64.size - 1 := by decide +kernel
  refine ⟨sealed, kept, few, ?_⟩
  obtain ⟨listing, stays⟩ := stable_run (τ := Plan) (n := 2) (m := 1) .trace _ _ _ commands 5 _ sealed
  have reads := stays others kept few
  have listed : ((s.run .debug .trace others).2.recorderAt 1).listing .debug = .ok [2, 0] := by
    decide +kernel
  rw [← Except.ok.inj (reads.listing_eq.symm.trans listed)]
  exact reads

/-- Where all the numbers of pauses are used up, a pause that is admitted does not begin and is not a
reset either, but the sealed recorder has lost its listing to it. -/
theorem stable_run_counted_out :
    let commands := laps (UInt64.size - 2) ++ [.beginPause 1, .record 0]
    let first : Session Plan 1 1 := shared 0 ⟨.growing 1, .ofSize 2⟩
    let s := (first.run .debug .off (commands ++ [.sealPause 5])).2
    ((first.run .debug .off commands).2.step .debug .off (.sealPause 5)).1.verdict =
        .answered (.summary ⟨UInt64.ofNat (UInt64.size - 1), 1, 1, 5⟩) ∧
      (s.step .debug .off (.beginPause 1)).1.verdict = .faulted .sumOverflow ∧
      (∀ entry ∈ stepsOf 0 (transcript (fun s => s.step .debug .off) s [.beginPause 1]),
        begun? entry = none ∧ entry.request ≠ .reset) ∧
      (s.recorderAt 0).listing .debug = .ok [0] ∧
      ((s.run .debug .off [.beginPause 1]).2.recorderAt 0).listing .debug = .ok [] := by
  intro commands first s
  have lapped (more : List Command) : (first.run .debug .off (laps (UInt64.size - 2) ++ more)).2 =
      ((lapped (UInt64.ofNat (UInt64.size - 2))).run .debug .off more).2 :=
    run_laps_append (by decide) more
  have here : s = ((Session.lapped (UInt64.ofNat (UInt64.size - 2))).run .debug .off
      [.beginPause 1, .record 0, .sealPause 5]).2 := by
    rw [← lapped]
    exact congrArg (fun commands => (first.run .debug .off commands).2) (List.append_assoc ..)
  rw [here, lapped]
  decide +kernel

end Session

end Evacuation
