import Evacuation.Proofs.Session.Steps

/-!
# Notes over a run of a session

The regions of a heap are told by the recordings that win their claim, on any recorder over that heap,
and by direct notes; they forget when they are cleared.  Over a run the notes of a region are the times
it was told since it was last cleared, and nothing else that a session does touches them.

`Session.regions_step` says what one step does to one region, and `Session.tallies_run` sums it up over
a run.
-/

namespace Evacuation

namespace Session

variable {τ : Type} [Layout τ] {n m : Nat}

/-! ## What a command tells and clears -/

/-- The indices whose regions a command tells: those it wins, or one that it notes directly. -/
def toldBy (p : Profile) (s : Session τ n m) (command : Command) : List UInt32 :=
  match command with
  | .table (.note index) => [index]
  | _ => s.wonBy p command

def tells (p : Profile) (k : Fin m) (position : Nat) (s : Session τ n m) (command : Command) : Nat :=
  if s.seat s.current = k then (s.toldBy p command).countP (s.table.places position) else 0

def wipes (t : Table τ) (position : Nat) : Command → Bool
  | .table (.clearRegion index) => t.places position index
  | .table .clearAll => true
  | _ => false

def clears (k : Fin m) (position : Nat) (s : Session τ n m) (command : Command) : Bool :=
  decide (s.seat s.current = k) && wipes s.table position command

/-- How often the region at a position of a heap was told since it was last cleared. -/
def notesSince (p : Profile) (k : Fin m) (position : Nat)
    (log : List (Entry (Session τ n m) Command Reply)) : Nat :=
  Transcript.since (fun entry => entry.before.clears k position entry.request)
    (fun entry => entry.before.tells p k position entry.request) log

/-- Whether a command that came to a verdict may have told or cleared a region.  A single recording
tells a region only if it was the first of the region. -/
def mayTell : Command → Verdict → Bool
  | .record _, verdict => verdict == .answered (.flag true)
  | .recordAll _, _ | .recordRange .., _ | .table (.note _), _ | .table (.clearRegion _), _
  | .table .clearAll, _ => true
  | _, _ => false

/-! ## One command -/

variable {p : Profile} {capture : Level} {s : Session τ n m}

def regionAfter (p : Profile) (k : Fin m) (position : Nat) (s : Session τ n m) (command : Command)
    (region : Region) : Region :=
  if s.clears k position command then region.clear else region.noted (s.tells p k position command)

theorem regionAfter_of_ne {k : Fin m} (apart : s.seat s.current ≠ k) (position : Nat)
    (command : Command) : s.regionAfter p k position command = id := by
  funext region
  simp [regionAfter, clears, tells, apart, Region.noted_zero]

theorem regionAfter_self (position : Nat) (command : Command) (region : Region) :
    s.regionAfter p (s.seat s.current) position command region =
      if wipes s.table position command then region.clear
      else region.noted ((s.toldBy p command).countP (s.table.places position)) := by
  simp [regionAfter, clears, tells]

/-- A command that clears nothing tells the regions behind its indices. -/
theorem regionAfter_of_told {position : Nat} {command : Command} {indices : List UInt32}
    (kept : wipes s.table position command = false) (told : s.toldBy p command = indices) :
    s.regionAfter p (s.seat s.current) position command =
      (Region.noted · (indices.countP (s.table.places position))) := by
  funext region
  rw [regionAfter_self, kept, told]
  rfl

/-- A command that neither tells nor clears anything leaves every region as it was. -/
theorem regionAfter_of_quiet {position : Nat} {command : Command}
    (kept : wipes s.table position command = false) (silent : s.toldBy p command = []) :
    s.regionAfter p (s.seat s.current) position command = id := by
  rw [regionAfter_of_told kept silent]
  funext region
  exact region.noted_zero

theorem heap_commit (t : Table τ) (count : UInt32) : (t.commit count).2.heap = t.heap := by
  unfold Table.commit
  split <;> rfl

/-- A request to a table changes its regions by a direct note or a clearing. -/
theorem regions_serve (p : Profile) (s : Session τ n m) (request : Table.Request) (position : Nat) :
    (s.table.serve request).2.heap.regions[position]? =
      (s.table.heap.regions[position]?).map
        (s.regionAfter p (s.seat s.current) position (.table request)) := by
  cases request with
  | note index =>
      have told : s.toldBy p (.table (.note index)) = [index] := rfl
      change (s.table.update index Region.note).2.heap.regions[position]? = _
      rw [Table.getElem?_update, regionAfter_of_told rfl told]
      congr 1
      funext region
      by_cases placed : s.table.places position index = true
      · simp [placed, ← Region.noted_note, Region.noted_zero]
      · simp [placed, Region.noted_zero]
  | clearRegion index =>
      change (s.table.update index Region.clear).2.heap.regions[position]? = _
      rw [Table.getElem?_update]
      congr 1
      funext region
      have silent : s.toldBy p (.table (.clearRegion index)) = [] := rfl
      rw [regionAfter_self, silent, List.countP_nil, Region.noted_zero]
      rfl
  | clearAll =>
      change (s.table.heap.regions.map Region.clear)[position]? = _
      rw [Array.getElem?_map]
      congr 1
      funext region
      rw [regionAfter_self]
      rfl
  | commit count =>
      change (s.table.commit count).2.heap.regions[position]? = _
      rw [heap_commit, regionAfter_of_quiet rfl rfl, Option.map_id_fun, id]
  | _ =>
      rw [regionAfter_of_quiet rfl rfl, Option.map_id_fun]
      rfl

/-- A command changes the regions behind the recorder in use by telling and by clearing them. -/
theorem regions_tableAfter (p : Profile) (s : Session τ n m) (command : Command) (position : Nat) :
    (s.tableAfter p command).heap.regions[position]? =
      (s.table.heap.regions[position]?).map
        (s.regionAfter p (s.seat s.current) position command) := by
  cases about : command.concern with
  | recording indices =>
      have told : s.toldBy p command = s.recorder.winners p s.table indices := by
        cases command <;> cases about <;> rfl
      have kept : wipes s.table position command = false := by
        cases command <;> cases about <;> rfl
      rw [tableAfter, about, Table.getElem?_tell, regionAfter_of_told kept told]
  | table request =>
      cases command with
      | table request => exact s.regions_serve p request position
      | _ => cases about
  | _ =>
      have silent : s.toldBy p command = [] := by
        cases command <;> cases about <;> rfl
      have kept : wipes s.table position command = false := by
        cases command <;> cases about <;> rfl
      rw [tableAfter, about, regionAfter_of_quiet kept silent, Option.map_id_fun, id]

/-- One step changes a region by telling it or by clearing it. -/
theorem regions_step (linked : s.recorder.Linked) (command : Command) (k : Fin m) (position : Nat) :
    ((s.step p capture command).2.tableAt k).heap.regions[position]? =
      ((s.tableAt k).heap.regions[position]?).map (s.regionAfter p k position command) := by
  rw [tableAt_step p capture linked]
  split
  · next same =>
    subst same
    exact s.regions_tableAfter p command position
  · next apart => rw [regionAfter_of_ne apart, Option.map_id_fun, id]

/-! ## Single recordings -/

theorem verdict_record (p : Profile) (capture : Level) (s : Session τ n m) (index : UInt32) :
    (s.step p capture (.record index)).1.verdict =
      .ofResult ((s.recorder.record p s.table index).result.map .flag) := rfl

/-- A recording is answered with `true` exactly if it won the claim and there is a region to tell. -/
theorem first_iff (linked : s.recorder.Linked) (index : UInt32) :
    (s.step p capture (.record index)).1.verdict = .answered (.flag true) ↔
      s.wonBy p (.record index) = [index] ∧ s.table.Resolves index := by
  have won : s.wonBy p (.record index) = if s.recorder.wins p index then [index] else [] :=
    Recorder.winners_singleton p s.recorder s.table index
  rw [verdict_record, won]
  obtain ⟨fault, lost, same⟩ | ⟨lost, same⟩ | ⟨_, _, won, same⟩ :=
    linked.claim_record p s.table index
  · simp [same, lost, Outcome.faulted, Verdict.ofResult, Except.map]
  · simp [same, lost, Outcome.done, Verdict.ofResult, Except.map]
  · rw [same, ← Table.note_eq_ok_iff]
    cases told : (s.table.note index).1 <;> simp [won, Verdict.ofResult, Except.map]

theorem tableAfter_record (linked : s.recorder.Linked) (index : UInt32) :
    s.tableAfter p (.record index) = (s.recorder.record p s.table index).state.2 := by
  rw [← Recorder.recordAll_singleton, linked.recordAll]
  rfl

/-- Nothing but a first recording, a series, a direct note or a clearing touches a region. -/
theorem heap_tableAfter_of_quiet (linked : s.recorder.Linked) {command : Command}
    (quiet : mayTell command (s.step p capture command).1.verdict = false) :
    (s.tableAfter p command).heap = s.table.heap := by
  cases command with
  | record index =>
      rw [tableAfter_record linked]
      obtain ⟨fault, _, same⟩ | ⟨_, same⟩ | ⟨_, _, won, same⟩ :=
        linked.claim_record p s.table index
      · rw [same]
        rfl
      · rw [same]
        rfl
      · have lost : ¬s.table.Resolves index := by
          intro resolves
          have first : (s.step p capture (.record index)).1.verdict = .answered (.flag true) :=
            (first_iff linked index).mpr
              ⟨(Recorder.winners_singleton ..).trans (if_pos won), resolves⟩
          exact Bool.false_ne_true (quiet.symm.trans (beq_iff_eq.mpr first))
        rw [same, Table.note_of_not_resolves lost]
  | table request =>
      cases request with
      | commit count => exact heap_commit s.table count
      | note index => cases quiet
      | clearRegion index => cases quiet
      | clearAll => cases quiet
      | _ => rfl
  | recordAll indices => cases quiet
  | recordRange first limit stride => cases quiet
  | _ => rfl

theorem heap_step_of_quiet (linked : s.recorder.Linked) {command : Command}
    (quiet : mayTell command (s.step p capture command).1.verdict = false) (k : Fin m) :
    ((s.step p capture command).2.tableAt k).heap = (s.tableAt k).heap := by
  rw [tableAt_step p capture linked]
  split
  · next same =>
    subst same
    exact heap_tableAfter_of_quiet linked quiet
  · rfl

/-! ## Runs -/

def fresh (layouts : Fin m → τ) (sizes : Fin m → UInt32) (seat : Fin n → Fin m)
    (current : Fin n) : Session τ n m :=
  start (Vector.ofFn fun k => ⟨layouts k, .ofSize (sizes k)⟩) seat current

theorem notesSince_concat (k : Fin m) (position : Nat)
    (log : List (Entry (Session τ n m) Command Reply)) (command : Command) :
    notesSince p k position (log ++ [Entry.of (fun s => s.step p capture) s command]) =
      if s.clears k position command then 0
      else notesSince p k position log + s.tells p k position command :=
  Transcript.since_concat ..

/-- What holds along a run: the recorders are linked, every heap was told what the log says, and every
command of the log did to the heaps what its verdict allows. -/
structure Telling (p : Profile) (capture : Level) (sizes : Fin m → UInt32)
    (log : List (Entry (Session τ n m) Command Reply)) (s : Session τ n m) : Prop where
  linked : s.Linked
  told : ∀ k : Fin m,
    (s.tableAt k).heap = Heap.told (sizes k) fun position => notesSince p k position log
  quiet : ∀ entry ∈ log, mayTell entry.request entry.answer.verdict = false →
    ∀ k : Fin m, (entry.after.tableAt k).heap = (entry.before.tableAt k).heap
  first : ∀ entry ∈ log, ∀ index, entry.request = .record index →
    (entry.answer.verdict = .answered (.flag true) ↔
      entry.before.wonBy p (.record index) = [index] ∧ entry.before.table.Resolves index)

namespace Telling

variable {sizes : Fin m → UInt32} {log : List (Entry (Session τ n m) Command Reply)}

theorem start (layouts : Fin m → τ) (seat : Fin n → Fin m) (current : Fin n) :
    Telling p capture sizes [] (fresh layouts sizes seat current) where
  linked := linked_start _ seat current
  told := by
    intro k
    have table : (fresh layouts sizes seat current).tableAt k = ⟨layouts k, .ofSize (sizes k)⟩ :=
      Vector.getElem_ofFn k.isLt
    rw [table, Heap.ofSize_eq_told]
    rfl
  quiet := fun _ member => by cases member
  first := fun _ member => by cases member

theorem step (h : Telling p capture sizes log s) (command : Command) :
    Telling p capture sizes (log ++ [Entry.of (fun s => s.step p capture) s command])
      (s.step p capture command).2 where
  linked := h.linked.step command
  told := by
    intro k
    apply Heap.ext_getElem?
    intro position
    rw [regions_step h.linked.recorder, h.told, Heap.getElem?_told, Heap.getElem?_told]
    split
    · rw [Option.map_some, notesSince_concat, regionAfter]
      split
      · rfl
      · rw [Region.noted_noted]
    · rfl
  quiet := by
    refine List.forall_mem_append.mpr ⟨h.quiet, List.forall_mem_singleton.mpr ?_⟩
    exact fun silent k => heap_step_of_quiet h.linked.recorder silent k
  first := by
    refine List.forall_mem_append.mpr ⟨h.first, List.forall_mem_singleton.mpr ?_⟩
    rintro index rfl
    exact first_iff h.linked.recorder index

end Telling

/-- Over every run of commands on recorders that share heaps or have their own, behind any layouts, the
notes of every region are the times it was told since it was last cleared.  Only the first recordings
of a region, direct notes and clearings touch the regions, and a recording is answered with `true`
exactly if it won the claim and there is a region to tell. -/
theorem tallies_run (p : Profile) (capture : Level) (layouts : Fin m → τ) (sizes : Fin m → UInt32)
    (seat : Fin n → Fin m) (current : Fin n) (commands : List Command)
    (few : ∀ k, ∀ position < (sizes k).toNat, notesSince p k position
      (transcript (fun s => s.step p capture) (fresh layouts sizes seat current) commands) <
        UInt64.size) :
    let log := transcript (fun s => s.step p capture) (fresh layouts sizes seat current) commands
    let last := ((fresh layouts sizes seat current).run p capture commands).2
    (∀ k : Fin m, (last.tableAt k).heap.Tallies (sizes k) fun position =>
        notesSince p k position log) ∧
      (∀ entry ∈ log, mayTell entry.request entry.answer.verdict = false →
        ∀ k : Fin m, (entry.after.tableAt k).heap = (entry.before.tableAt k).heap) ∧
      ∀ entry ∈ log, ∀ index, entry.request = .record index →
        (entry.answer.verdict = .answered (.flag true) ↔
          entry.before.wonBy p (.record index) = [index] ∧ entry.before.table.Resolves index) := by
  intro log last
  have telling : Telling p capture sizes log last := by
    unfold log last
    rw [run_snd]
    exact Transcript.induction (Telling p capture sizes) (.start layouts seat current)
      (fun _ _ command h => h.step command) commands
  refine ⟨?_, telling.quiet, telling.first⟩
  intro k
  rw [telling.told k]
  exact Heap.tallies_told (few k)

/-- Two recorders over one heap of three regions that six indices are folded over. -/
theorem tallies_run_folded :
    let commands : List Command :=
      [.beginPause 6, .record 1, .record 4, .record 1, .record 9, .table (.note 0), .use 1,
        .beginPause 6, .table (.clearRegion 3), .recordAll [4, 2], .sealPause 8, .record 5]
    let s : Session Plan 2 1 := fresh (fun _ => .folded 6 3) (fun _ => 3) (fun _ => 0) 0
    let log := transcript (fun s => s.step .debug .info) s commands
    let last := (s.run .debug .info commands).2
    (∀ k, ∀ position < (3 : UInt32).toNat, notesSince .debug k position log < UInt64.size) ∧
      (∀ k : Fin 1, (last.tableAt k).heap.Tallies 3 fun position =>
        notesSince .debug k position log) ∧
      (List.range 3).map (notesSince .debug 0 · log) = [0, 3, 1] := by
  intro commands s log last
  have few : ∀ k, ∀ position < (3 : UInt32).toNat,
      notesSince .debug k position log < UInt64.size := by decide +kernel
  have counted := tallies_run (τ := Plan) (n := 2) (m := 1) .debug .info
    (fun _ => .folded 6 3) (fun _ => 3) (fun _ => 0) 0 commands few
  refine ⟨few, ?_, by decide +kernel⟩
  unfold last s
  exact counted.1

end Session

end Evacuation
