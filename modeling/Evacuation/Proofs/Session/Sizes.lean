import Evacuation.Proofs.Session.Acts

/-!
# The size of a recorder and that of its table

A recorder never gives room up: it is as large as it was made, or as the largest pause that it has made
room for since.  By the time a pause is begun, the table may offer fewer indices than that, and then a
recording can strand a region.  Where the recorder is not larger than the table, no recording of the
pause can, until the table shrinks.

`Session.Sized` says how large a recorder is after some steps, and one act carries it on;
`Session.sized_run` says when a recorder that has begun a pause is not larger than its table.
-/

namespace Evacuation

namespace Session

variable {τ : Type} {n m : Nat}

def sizesOf (k : Fin n) (log : List (Entry (Session τ n m) Command Reply)) : List UInt32 :=
  (stepsOf k log).filterMap admitted?

section Log

variable (log : List (Entry (Session τ n m) Command Reply))
  (entry : Entry (Session τ n m) Command Reply)

theorem sizesOf_append (k : Fin n) (more : List (Entry (Session τ n m) Command Reply)) :
    sizesOf k (log ++ more) = sizesOf k log ++ sizesOf k more := by
  rw [sizesOf, stepsOf, List.filter_append, List.filterMap_append]
  rfl

theorem sizesOf_concat : sizesOf entry.before.current (log ++ [entry]) =
    sizesOf entry.before.current log ++ (admitted? entry).toList := by
  rw [sizesOf, stepsOf_concat_self, List.filterMap_append, sizesOf]
  cases admitted : admitted? entry <;> simp [admitted]

theorem sizesOf_concat_of_ne {k : Fin n} (apart : entry.before.current ≠ k) :
    sizesOf k (log ++ [entry]) = sizesOf k log := by
  rw [sizesOf, stepsOf_concat_of_ne _ _ apart, sizesOf]

end Log

/-- A recorder is as large as it was at first, or as the largest pause that it made room for. -/
def Sized (first : UInt32) (sizes : List UInt32) (r : Recorder) : Prop :=
  ∀ bound : UInt32, r.maxRegions ≤ bound ↔ first ≤ bound ∧ ∀ size ∈ sizes, size ≤ bound

theorem Sized.congr {first : UInt32} {sizes : List UInt32} {q r : Recorder}
    (h : Sized first sizes q) (same : r.failed.capacity = q.failed.capacity) :
    Sized first sizes r := by
  intro bound
  rw [Recorder.maxRegions, same]
  exact h bound

/-- Recorders that made the same room are of one size. -/
theorem Sized.unique {first : UInt32} {sizes : List UInt32} {q r : Recorder}
    (hq : Sized first sizes q) (hr : Sized first sizes r) : q.maxRegions = r.maxRegions :=
  UInt32.le_antisymm ((hq _).mpr ((hr _).mp (UInt32.le_refl _)))
    ((hr _).mpr ((hq _).mp (UInt32.le_refl _)))

/-- Room made for a pause is room for it and for all that there was room for. -/
theorem Sized.prepare {first : UInt32} {sizes : List UInt32} {r : Recorder}
    (h : Sized first sizes r) (sized : r.Sized) (size : UInt32) :
    Sized first (sizes ++ [size]) (r.prepare size) := by
  intro bound
  have larger : (r.prepare size).maxRegions ≤ bound ↔ r.maxRegions ≤ bound ∧ size ≤ bound := by
    rw [UInt32.le_iff_toNat_le, (sized.blank_prepare size).toNat_maxRegions,
      sized.capacity_prepare, Nat.max_le, ← sized.toNat_maxRegions, UInt32.le_iff_toNat_le,
      UInt32.le_iff_toNat_le]
  rw [larger, h bound, List.forall_mem_append, List.forall_mem_singleton, and_assoc]

variable [Layout τ] {capture : Level} {s : Session τ n m}
  {log : List (Entry (Session τ n m) Command Reply)}
  {entry : Entry (Session τ n m) Command Reply}

theorem Sized.act {p : Profile} {first : UInt32} (act : Act p capture entry)
    (linked : entry.before.recorder.Linked)
    (h : Sized first (sizesOf entry.before.current log) entry.before.recorder) :
    Sized first (sizesOf entry.before.current (log ++ [entry]))
      (entry.before.recorderAfter p entry.request) := by
  have quiet (unmade : admitted? entry = none)
      (same : (entry.before.recorderAfter p entry.request).failed.capacity =
        entry.before.recorder.failed.capacity) :
      Sized first (sizesOf entry.before.current (log ++ [entry]))
        (entry.before.recorderAfter p entry.request) := by
    rw [sizesOf_concat, unmade, Option.toList_none, List.append_nil]
    exact h.congr same
  cases act with
  | begins regions _ _ _ admitted _ recorder =>
      rw [sizesOf_concat, admitted, recorder]
      exact (h.prepare linked.toSized regions).congr rfl
  | exhausts regions _ admitted _ _ recorder =>
      rw [sizesOf_concat, admitted, recorder]
      exact h.prepare linked.toSized regions
  | records won kept _ recorder =>
      refine quiet (admitted?_of_kept kept) ?_
      rw [recorder, Recorder.capacity_enlistAll]
  | seals _ kept _ recorder => exact quiet (admitted?_of_kept kept) (by rw [recorder])
  | resets request recorder =>
      refine quiet ?_ (by rw [recorder]; rfl)
      simp [admitted?, request]
  | rests kept recorder => exact quiet (admitted?_of_kept kept) (by rw [recorder])

/-! ## Runs -/

structure Measured (first : Fin n → UInt32) (log : List (Entry (Session τ n m) Command Reply))
    (s : Session τ n m) : Prop where
  linked : s.Linked
  sized : ∀ k, Sized (first k) (sizesOf k log) (s.recorderAt k)

theorem measured_start (tables : Vector (Table τ) m) (seat : Fin n → Fin m) (current : Fin n) :
    Measured (fun k => (tables.get (seat k)).maxRegions) [] (start tables seat current) where
  linked := linked_start tables seat current
  sized := by
    intro k bound
    have size : (Recorder.ofSize (tables.get (seat k)).maxRegions).maxRegions =
        (tables.get (seat k)).maxRegions := UInt32.ofNat_toNat
    rw [recorderAt_start, size]
    simp [sizesOf, stepsOf]

theorem Measured.step {p : Profile} {first : Fin n → UInt32} (h : Measured first log s)
    (command : Command) :
    Measured first (log ++ [Entry.of (fun s => s.step p capture) s command])
      (s.step p capture command).2 where
  linked := h.linked.step command
  sized := by
    intro k
    rw [recorderAt_step p capture h.linked.recorder]
    split
    · next same =>
      subst same
      exact (h.sized s.current).act (acts capture h.linked.recorder command) h.linked.recorder
    · next apart =>
      rw [sizesOf_concat_of_ne log (Entry.of (fun s => s.step p capture) s command) apart]
      exact h.sized k

omit [Layout τ] in
/-- A recorder that makes room for no further pause keeps its size. -/
theorem Measured.size_eq {first : Fin n → UInt32} {now : Session τ n m}
    {during : List (Entry (Session τ n m) Command Reply)} {k : Fin n} (h : Measured first log s)
    (later : Measured first (log ++ during) now) (alone : sizesOf k during = []) :
    (now.recorderAt k).maxRegions = (s.recorderAt k).maxRegions := by
  have sized := later.sized k
  rw [sizesOf_append, alone, List.append_nil] at sized
  exact sized.unique (h.sized k)

/-- Before every step of a run the recorders are measured. -/
theorem measured_before {p : Profile} {tables : Vector (Table τ) m} {seat : Fin n → Fin m}
    {current : Fin n} {commands : List Command}
    {earlier : List (Entry (Session τ n m) Command Reply)}
    (reached : earlier ++ [entry] <+:
      transcript (fun s => s.step p capture) (start tables seat current) commands) :
    ∃ now command, entry = Entry.of (fun s => s.step p capture) now command ∧
      Measured (fun k => (tables.get (seat k)).maxRegions) earlier now :=
  Transcript.holds_before (Measured fun k => (tables.get (seat k)).maxRegions)
    (measured_start tables seat current) (fun _ _ command h => h.step command) reached

def Fits (s : Session τ n m) : Prop :=
  s.recorder.maxRegions ≤ s.table.maxRegions

/-- A pause that is begun in a checking profile is not too large for the table, which stays as it was. -/
theorem begun_step (linked : s.recorder.Linked) {command : Command} {pauseId : UInt64}
    (begun : begun? (Entry.of (fun s => s.step .debug capture) s command) = some pauseId) :
    (s.step .debug capture command).2.recorder =
        (s.step .debug capture command).2.recorderAt s.current ∧
      (s.step .debug capture command).2.table = s.table ∧
      ∃ regions,
        admitted? (Entry.of (fun s => s.step .debug capture) s command) = some regions ∧
          regions ≤ s.table.maxRegions := by
  cases acts capture linked command with
  | begins regions _ request _ admitted fits =>
      obtain rfl : command = .beginPause regions := request
      exact ⟨rfl, rfl, regions, admitted, fits rfl⟩
  | exhausts _ unbegun => exact absurd (unbegun.symm.trans begun) nofun
  | records _ kept => exact absurd ((begun?_of_kept kept).symm.trans begun) nofun
  | seals _ kept => exact absurd ((begun?_of_kept kept).symm.trans begun) nofun
  | resets request =>
      obtain rfl : command = .reset := request
      cases begun
  | rests kept => exact absurd ((begun?_of_kept kept).symm.trans begun) nofun

/-- A pause finds room in the table if all that the recorder made room for before does. -/
theorem Measured.fits_iff {first : Fin n → UInt32} (h : Measured first log s) {command : Command}
    {pauseId : UInt64}
    (begun : begun? (Entry.of (fun s => s.step .debug capture) s command) = some pauseId) :
    (s.step .debug capture command).2.Fits ↔
      first s.current ≤ (s.step .debug capture command).2.table.maxRegions ∧
        ∀ size ∈ sizesOf s.current log,
          size ≤ (s.step .debug capture command).2.table.maxRegions := by
  obtain ⟨recorder, table, regions, admitted, fits⟩ := begun_step h.linked.recorder begun
  have sizes : sizesOf s.current
      (log ++ [Entry.of (fun s => s.step .debug capture) s command]) =
        sizesOf s.current log ++ [regions] :=
    (sizesOf_concat log (Entry.of (fun s => s.step .debug capture) s command)).trans
      (by rw [admitted]; rfl)
  have after : Measured first (log ++ [Entry.of (fun s => s.step .debug capture) s command])
      (s.step .debug capture command).2 := h.step command
  have sized := after.sized s.current
  rw [sizes] at sized
  rw [Fits, recorder, table, sized, List.forall_mem_append, List.forall_mem_singleton,
    and_iff_left fits]

/-- A recording within the range of a pause answers if the table resolves the region. -/
theorem answered_of_resolves (linked : s.recorder.Linked) {index : UInt32}
    (recording : s.recorder.phase = .recording) (inside : index < s.recorder.maxRegions)
    (resolves : s.table.Resolves index) :
    ∃ won, (s.step .debug capture (.record index)).1.verdict = .answered (.flag won) := by
  have verdict : (s.step .debug capture (.record index)).1.verdict =
      .ofResult ((s.recorder.record .debug s.table index).result.map .flag) := rfl
  have within : index.toNat < s.recorder.failed.capacity := by
    rw [← linked.toNat_maxRegions]
    exact UInt32.lt_iff_toNat_lt.mp inside
  obtain ⟨refused, _⟩ | ⟨beyond, _⟩ | ⟨_, same⟩ | ⟨_, _, same⟩ :=
    linked.record .debug s.table index
  · simp [recording] at refused
  · exact absurd within (Nat.not_lt.mpr beyond)
  · rw [verdict, same]
    exact ⟨false, rfl⟩
  · rw [verdict, same, Table.note_of_resolves resolves]
    exact ⟨true, rfl⟩

/-- In a checking profile, over every run on any number of recorders: a recorder that has begun a pause
is not larger than its table exactly if what it was made for and what it made room for in all earlier
pauses are no more than the table offers by now.  It then records every region in its range, as long as
it makes room for no other pause, and the table offers no fewer regions and resolves all it offers. -/
theorem sized_run (capture : Level) (tables : Vector (Table τ) m) (seat : Fin n → Fin m)
    (current : Fin n) (commands : List Command) :
    let log := transcript (fun s => s.step .debug capture) (start tables seat current) commands
    (∀ earlier entry pauseId, earlier ++ [entry] <+: log → begun? entry = some pauseId →
        (entry.after.Fits ↔
          (tables.get (seat entry.before.current)).maxRegions ≤ entry.after.table.maxRegions ∧
            ∀ size ∈ sizesOf entry.before.current earlier,
              size ≤ entry.after.table.maxRegions)) ∧
      ∀ earlier entry pauseId during last index,
        earlier ++ [entry] ++ during ++ [last] <+: log → begun? entry = some pauseId →
          entry.after.Fits → last.before.current = entry.before.current →
          sizesOf entry.before.current during = [] →
          entry.after.table.maxRegions ≤ last.before.table.maxRegions →
          (∀ region < last.before.table.maxRegions, last.before.table.Resolves region) →
          last.request = .record index → last.before.recorder.phase = .recording →
          index < last.before.recorder.maxRegions →
            ∃ won, last.answer.verdict = .answered (.flag won) := by
  intro log
  refine ⟨?begun, ?recorded⟩
  case begun =>
    intro earlier entry pauseId reached begun
    obtain ⟨now, command, rfl, measured⟩ := measured_before reached
    exact measured.fits_iff begun
  case recorded =>
    intro earlier entry pauseId during last index reached begun fits same alone offered resolves
      record recording inside
    obtain ⟨now, command, rfl, measured⟩ := measured_before reached
    have before : earlier ++ [entry] <+: log := by
      rw [List.append_assoc] at reached
      exact (List.prefix_append _ _).trans reached
    obtain ⟨first, opening, rfl, opened⟩ := measured_before before
    obtain rfl : command = .record index := record
    simp only [Entry.before_of, Entry.after_of] at fits same alone offered resolves recording inside
    obtain ⟨recorder, _⟩ := begun_step opened.linked.recorder begun
    have here : now.recorder = now.recorderAt first.current := by rw [← same]; rfl
    have begun : Measured (fun k => (tables.get (seat k)).maxRegions)
        (earlier ++ [Entry.of (fun s => s.step .debug capture) first opening])
        (first.step .debug capture opening).2 := opened.step opening
    have size := begun.size_eq measured alone
    rw [← here, ← recorder] at size
    have offer : index < now.table.maxRegions := by
      refine UInt32.lt_of_lt_of_le inside ?_
      rw [size]
      exact UInt32.le_trans fits offered
    exact answered_of_resolves measured.linked.recorder recording inside (resolves index offer)

/-- A table that has given regions up is smaller than a recorder that begins a pause over all that is
left, and strands one of the regions that were given up. -/
theorem sized_run_outgrown :
    let commands : List Command := [.table (.commit 2), .beginPause 2]
    let s : Session Plan 1 1 := start #v[⟨.growing 4, .ofSize 4⟩] (fun _ => 0) 0
    let log := transcript (fun s => s.step .debug .trace) s commands
    let last := (s.run .debug .trace commands).2
    let stranded := last.step .debug .trace (.record 3)
    pauseIds log = [1] ∧ ¬last.Fits ∧
      stranded.1.verdict = .faulted (.notCommitted 3) ∧
      stranded.2.recorder.journal.entries = [3] ∧ stranded.2.table.heap.touched = [] := by
  intro commands s log last stranded
  unfold Fits
  decide +kernel

end Session

end Evacuation
