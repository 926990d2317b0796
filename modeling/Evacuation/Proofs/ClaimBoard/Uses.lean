import Evacuation.Proofs.Recorder.Traversal
import Evacuation.Proofs.Transcript

/-!
# The uses of a claim board

Walks may stop half-way, and others take up what is left of the listing with the same board.  A log kept
beside the visitor's state says at which entries the visitor was called and at which it came to its end.
`Report` reads off the log how far a walk came, and `reported_uses` follows a board through any walks and
requests: until it is released, no entry is handed to a visitor twice.
-/

namespace Evacuation

variable {σ : Type}

/-! ## The log of a visitor -/

/-- A visitor's state, with the entries at which it was called and those at which it came to its end. -/
structure Visits (σ : Type) where
  called : List UInt32
  ended : List UInt32
  state : σ

def Visits.none (state : σ) : Visits σ :=
  ⟨[], [], state⟩

def logged (visit : Visitor σ) : Visitor (Visits σ) := fun index visits =>
  match visit index visits.state with
  | (.error fault, state) => (.error fault, ⟨visits.called ++ [index], visits.ended, state⟩)
  | (.ok (), state) => (.ok (), ⟨visits.called ++ [index], visits.ended ++ [index], state⟩)

def Walk.unlogged (walk : Walk (Visits σ)) : Walk σ :=
  ⟨walk.result, walk.board, walk.visits.state⟩

/-- The log changes nothing in a walk. -/
theorem Recorder.walkOver_logged (journal : Journal) (visit : Visitor σ) (positions : List Nat)
    (board : ClaimBoard) (visits : Visits σ) :
    (walkOver journal (logged visit) positions board visits).unlogged =
      walkOver journal visit positions board visits.state := by
  induction positions generalizing board visits with
  | nil => rfl
  | cons position rest ih =>
      unfold walkOver
      rcases claimEntry journal board position with ⟨fault | won, board⟩
      · rfl
      · cases won with
        | none => exact ih board visits
        | some index =>
            rcases visited : visit index visits.state with ⟨fault | _, state⟩
            · simp only [logged, visited]
              rfl
            · simp only [logged, visited]
              exact ih board _

theorem Recorder.walk_logged (profile : Profile) (r : Recorder) (board : ClaimBoard)
    (worker : UInt64) (visit : Visitor σ) (visits : Visits σ) :
    (r.walk profile board worker (logged visit) visits).unlogged =
      r.walk profile board worker visit visits.state := by
  unfold walk
  cases r.route profile board worker with
  | error fault => rfl
  | ok positions => exact walkOver_logged r.journal visit positions board visits

/-- Visits that come to their end are all in the log, as called and as ended. -/
theorem visitAll_logged {visit : Visitor σ} {run : List UInt32} {visits now : Visits σ}
    (visited : visitAll (logged visit) run visits = (.ok (), now)) :
    now.called = visits.called ++ run ∧ now.ended = visits.ended ++ run ∧
      visitAll visit run visits.state = (.ok (), now.state) := by
  induction run generalizing visits with
  | nil =>
      obtain rfl := (Prod.mk.inj visited).2
      simp [visitAll]
  | cons index rest ih =>
      unfold visitAll at visited ⊢
      rcases first : visit index visits.state with ⟨fault | _, state⟩
      · simp only [logged, first] at visited
        cases (Prod.mk.inj visited).1
      · simp only [logged, first] at visited
        obtain ⟨called, ended, others⟩ := ih visited
        exact ⟨by rw [called, List.append_assoc]; rfl, by rw [ended, List.append_assoc]; rfl, others⟩

/-! ## How far a walk came -/

/-- How far a walk came that tries the entries of a round in turn, with the log of its visitor: the
visits that came to their end are those of the entries before the stop that were free, in order. -/
inductive Report (visit : Visitor σ) (board : ClaimBoard) (state : σ) (walk : Walk (Visits σ)) :
    List UInt32 → Prop where
  | whole {round : List UInt32} (result : walk.result = .ok ())
      (ended : walk.visits.ended = board.fresh round) (called : walk.visits.called = board.fresh round)
      (visited : visitAll visit (board.fresh round) state = (.ok (), walk.visits.state))
      (claims : board.Grows round walk.board) : Report visit board state walk round
  /-- The walk stopped at an entry beyond the board, which is not claimed. -/
  | refused {before after : List UInt32} {index : UInt32} (beyond : board.claims.size ≤ index.toNat)
      (result : walk.result = .error (.indexOutOfBounds board.claims.size index.toNat))
      (ended : walk.visits.ended = board.fresh before)
      (called : walk.visits.called = board.fresh before)
      (visited : visitAll visit (board.fresh before) state = (.ok (), walk.visits.state))
      (claims : board.Grows before walk.board) :
      Report visit board state walk (before ++ index :: after)
  /-- The walk stopped in the visit of an entry, which stays claimed. -/
  | stopped {before after : List UInt32} {index : UInt32} {fault : Fault} {now : σ}
      (inside : index.toNat < board.claims.size) (free : board.claimed index.toNat = false)
      (visited : visitAll visit (board.fresh before) state = (.ok (), now))
      (faulted : visit index now = (.error fault, walk.visits.state))
      (result : walk.result = .error fault) (ended : walk.visits.ended = board.fresh before)
      (called : walk.visits.called = board.fresh before ++ [index])
      (claims : board.Grows (before ++ [index]) walk.board) :
      Report visit board state walk (before ++ index :: after)

section Report

variable {visit : Visitor σ} {board : ClaimBoard} {state : σ} {walk : Walk (Visits σ)}
  {round : List UInt32}

theorem Traversal.report (h : Traversal (logged visit) board (.none state) round walk) :
    Report visit board state walk round := by
  cases h with
  | whole passed =>
      obtain ⟨called, ended, visited⟩ := visitAll_logged passed.visited
      exact .whole rfl ended called visited (ClaimBoard.grows_markAll passed.covered)
  | refused passed beyond =>
      obtain ⟨called, ended, visited⟩ := visitAll_logged passed.visited
      exact .refused beyond rfl ended called visited (ClaimBoard.grows_markAll passed.covered)
  | @stopped before after index now last fault passed inside free faulted =>
      obtain ⟨called, ended, visited⟩ := visitAll_logged passed.visited
      have covered : ∀ other ∈ before ++ [index], other.toNat < board.claims.size := by
        intro other member
        rcases List.mem_append.mp member with early | here
        · exact passed.covered other early
        · rw [List.mem_singleton.mp here]
          exact inside
      have grows := ClaimBoard.grows_markAll covered
      unfold logged at faulted
      rcases first : visit index now.state with ⟨cause | _, state⟩
      · rw [first] at faulted
        obtain ⟨same, rfl⟩ := Prod.mk.inj faulted
        obtain rfl := Except.error.inj same
        exact .stopped inside free visited first rfl ended (congrArg (· ++ [index]) called) grows
      · rw [first] at faulted
        cases (Prod.mk.inj faulted).1

/-- The entries at which a visitor was called were free before the walk, are claimed after it, and are
different from each other; what was claimed before stays claimed. -/
structure Hands (board : ClaimBoard) (called : List UInt32) (after : ClaimBoard) : Prop where
  nodup : called.Nodup
  free : ∀ index ∈ called, board.claimed index.toNat = false
  claimed : ∀ index ∈ called, after.claimed index.toNat = true
  kept : ∀ j, board.claimed j = true → after.claimed j = true

theorem Hands.nothing (board : ClaimBoard) : Hands board [] board :=
  ⟨List.nodup_nil, nofun, nofun, fun _ kept => kept⟩

/-- Entries of a run by which the claims grow are handed out, if they were free. -/
theorem ClaimBoard.Grows.hands {b after : ClaimBoard} {run called : List UInt32}
    (h : b.Grows run after) (distinct : run.Nodup) (free : called.Sublist (b.fresh run)) :
    Hands b called after where
  nodup := (distinct.filter _).sublist free
  free := by
    intro index member
    simpa using (List.mem_filter.mp (free.subset member)).2
  claimed := by
    intro index member
    have listed : index ∈ run := List.mem_of_mem_filter (free.subset member)
    exact (h.claimed_iff index.toNat).mpr (Or.inr ⟨index, listed, rfl⟩)
  kept := fun j claimed => (h.claimed_iff j).mpr (Or.inl claimed)

theorem Report.hands (h : Report visit board state walk round) (distinct : round.Nodup) :
    Hands board walk.visits.called walk.board := by
  cases h with
  | whole result ended called visited claims =>
      exact claims.hands distinct (called ▸ List.Sublist.refl _)
  | refused beyond result ended called visited claims =>
      exact claims.hands (List.nodup_append.mp distinct).1 (called ▸ List.Sublist.refl _)
  | @stopped before after index fault now inside free visited faulted result ended called claims =>
      have last : board.fresh (before ++ [index]) = board.fresh before ++ [index] := by
        rw [ClaimBoard.fresh, List.filter_append]
        exact congrArg (board.fresh before ++ ·) (ClaimBoard.fresh_cons_of_free free)
      have early : (before ++ [index]).Nodup := by
        refine distinct.sublist (List.Sublist.append_left ?_ before)
        exact List.singleton_sublist.mpr List.mem_cons_self
      rw [called, ← last]
      exact claims.hands early (List.Sublist.refl _)

end Report

/-! ## Any uses -/

/-- A claim frees nothing. -/
theorem ClaimBoard.claimed_claim (b : ClaimBoard) (index : UInt32) {j : Nat}
    (claimed : b.claimed j = true) : (b.claim index).2.claimed j = true := by
  by_cases inside : index.toNat < b.claims.size
  · rw [claim_of_lt inside, claimed_mark inside, claimed]
    rfl
  · rw [claim_of_le (Nat.le_of_not_lt inside)]
    exact claimed

/-- What can be done with a claim board. -/
inductive Use (τ σ : Type) where
  | walk (profile : Profile) (size : UInt32) (calls : List (Call τ σ)) (worker : UInt64)
    (visit : Visitor σ) (state : σ)
  | request (profile : Profile) (request : ClaimBoard.Request)

def Use.releases {τ : Type} : Use τ σ → Bool
  | .request _ .release => true
  | .request .. | .walk .. => false

variable {τ : Type} [Layout τ]

def ClaimBoard.use (b : ClaimBoard) : Use τ σ → Option (Walk (Visits σ)) × ClaimBoard
  | .walk profile size calls worker visit state =>
    let r := (Recorder.ofSize size).afterCalls profile calls
    let walk := r.walk profile b worker (logged visit) (.none state)
    (some walk, walk.board)
  | .request profile request => (none, (b.serve profile request).2)

abbrev UseLog (τ σ : Type) :=
  List (Entry ClaimBoard (Use τ σ) (Option (Walk (Visits σ))))

def calledIn (entry : Entry ClaimBoard (Use τ σ) (Option (Walk (Visits σ)))) : List UInt32 :=
  match entry.answer with
  | some walk => walk.visits.called
  | none => []

/-- The entries at which visitors were called since the board was last released, in order. -/
def calledSinceRelease (log : UseLog τ σ) : List UInt32 :=
  log.foldl (fun called entry => if entry.request.releases then [] else called ++ calledIn entry) []

omit [Layout τ] in
theorem calledSinceRelease_concat (log : UseLog τ σ)
    (entry : Entry ClaimBoard (Use τ σ) (Option (Walk (Visits σ)))) :
    calledSinceRelease (log ++ [entry]) =
      if entry.request.releases then [] else calledSinceRelease log ++ calledIn entry := by
  simp [calledSinceRelease]

/-- A walk of a worker that is given a start goes as it would without the log, and the log reports it. -/
theorem ClaimBoard.use_walk (b : ClaimBoard) {profile : Profile} {size : UInt32}
    {calls : List (Call τ σ)} {r : Recorder}
    (reached : r = (Recorder.ofSize size).afterCalls profile calls)
    (readable : r.readable profile = .ok ()) {worker start : UInt64}
    (offset : b.offset profile worker r.journal.cursor = .ok start) (visit : Visitor σ) (state : σ) :
    ∃ walk, b.use (.walk profile size calls worker visit state) = (some walk, walk.board) ∧
      walk.unlogged = r.walk profile b worker visit state ∧
      Report visit b state walk
        (r.journal.entries.drop start.toNat ++ r.journal.entries.take start.toNat) := by
  subst reached
  have linked := (Recorder.blank_ofSize size).linked.afterCalls profile calls
  exact ⟨_, rfl, Recorder.walk_logged profile _ b worker visit (.none state),
    (linked.traversal readable offset (logged visit) (.none state)).report⟩

/-- A use that does not release the board hands out free entries, or none. -/
theorem hands_use (b : ClaimBoard) {use : Use τ σ} (held : use.releases = false) :
    Hands b (calledIn (Entry.of ClaimBoard.use b use)) (b.use use).2 := by
  cases use with
  | walk profile size calls worker visit state =>
      have linked := (Recorder.blank_ofSize size).linked.afterCalls profile calls
      obtain ⟨fault, refused⟩ | ⟨start, traversed⟩ :=
        linked.walk_cases profile b worker (logged visit) (.none state)
      · simp only [calledIn, Entry.answer_of, ClaimBoard.use, refused]
        exact .nothing b
      · exact traversed.report.hands (linked.nodup_round start)
  | request profile request =>
      cases request with
      | claim index =>
        exact ⟨List.nodup_nil, nofun, nofun, fun j claimed => b.claimed_claim index claimed⟩
      | release => cases held
      | isClaimed index => exact .nothing b
      | workers => exact .nothing b
      | offset worker length => exact .nothing b
      | inspect => exact .nothing b

/-- Until the board is released, the entries that were handed out are different from each other, and
they are claimed. -/
structure HandedOnce (log : UseLog τ σ) (now : ClaimBoard) : Prop where
  nodup : (calledSinceRelease log).Nodup
  claimed : ∀ index ∈ calledSinceRelease log, now.claimed index.toNat = true

theorem HandedOnce.use {log : UseLog τ σ} {now : ClaimBoard} (h : HandedOnce log now) (use : Use τ σ) :
    HandedOnce (log ++ [Entry.of ClaimBoard.use now use]) (now.use use).2 := by
  have called := calledSinceRelease_concat log (Entry.of ClaimBoard.use now use)
  cases released : use.releases with
  | true =>
      rw [Entry.request_of, if_pos released] at called
      constructor <;> simp [called]
  | false =>
      have hands := hands_use now released
      rw [Entry.request_of, if_neg (by simp [released])] at called
      constructor
      · rw [called]
        refine h.nodup.append hands.nodup ?_
        intro index before here
        have taken := h.claimed index before
        rw [hands.free index here] at taken
        cases taken
      · rw [called]
        intro index member
        rcases List.mem_append.mp member with before | here
        · exact hands.kept _ (h.claimed index before)
        · exact hands.claimed index here

theorem handedOnce_transcript (first : ClaimBoard) (uses : List (Use τ σ)) :
    HandedOnce (transcript ClaimBoard.use first uses) (finalState ClaimBoard.use first uses) :=
  Transcript.induction HandedOnce ⟨List.nodup_nil, nofun⟩ (fun _ _ use h => h.use use) uses

/-- Every walk with a claim board, whatever was done with the board before, is reported by its log:
which visits came to their end, where the walk stopped, and what it claimed.  Over all the uses no entry
is handed to a visitor twice until the board is released.  In a session a walk changes nothing but its
board, and emits nothing.  Looking a region up is part of its visit. -/
theorem reported_uses (first : ClaimBoard) (uses : List (Use τ σ)) :
    let log := transcript ClaimBoard.use first uses
    (∀ entry ∈ log, ∀ profile size calls worker visit state,
      entry.request = .walk profile size calls worker visit state →
      let r := (Recorder.ofSize size).afterCalls profile calls
      ∀ start, r.readable profile = .ok () →
        entry.before.offset profile worker r.journal.cursor = .ok start →
        ∃ walk, entry.answer = some walk ∧ entry.after = walk.board ∧
          walk.unlogged = r.walk profile entry.before worker visit state ∧
          Report visit entry.before state walk
            (r.journal.entries.drop start.toNat ++ r.journal.entries.take start.toNat)) ∧
      HandedOnce log (finalState ClaimBoard.use first uses) ∧
      ∀ (n m : Nat) (s : Session τ n m) (number : Nat) (board : ClaimBoard),
        s.boards[number]? = some board →
        ∀ (profile : Profile) (capture : Level) (worker : UInt64) (limit : Option Nat),
          let walk := s.recorder.walk profile board worker
            (s.table.visitor (Session.listVisits limit)) #[]
          s.step profile capture (.walk number worker limit) =
            (⟨.answered (.walk walk.visits.toList (Session.stopOf walk.result)), s.recorder.phase, []⟩,
              { s with boards := s.boards.setIfInBounds number walk.board }) := by
  intro log
  refine ⟨?_, handedOnce_transcript first uses, ?_⟩
  · intro entry member profile size calls worker visit state request r start readable offset
    have served := Transcript.eq_of_mem member
    rw [request] at served
    obtain ⟨walk, used, same, report⟩ :=
      entry.before.use_walk rfl readable offset visit state
    refine ⟨walk, ?_, ?_, same, report⟩
    · rw [served, Entry.answer_of, used]
    · rw [served, Entry.after_of, used]
  · intro n m s number board found profile capture worker limit
    exact Session.step_walk found profile capture worker limit

/-- A walk that is stopped at its second visit, and a walk by another worker that goes to the end: the
entry of the stopped visit is not visited again. -/
theorem reported_uses_resumed :
    let calls : List (Call Plan (List UInt32)) :=
      [.beginPause 3 3 .zero, .record (Table.ofSize 3) 2, .record (Table.ofSize 3) 0,
        .record (Table.ofSize 3) 1, .sealPause 0 .zero]
    let seeing : Visitor (List UInt32) := fun index seen => (.ok (), seen ++ [index])
    let stopping : Visitor (List UInt32) := fun index seen =>
      if seen = [] then (.ok (), [index]) else (.error (.visitorStopped index), seen)
    let first : ClaimBoard := ⟨2, #[false, false, false], by decide⟩
    let log := transcript ClaimBoard.use first
      [.walk .debug 3 calls 0 stopping [], .walk .debug 3 calls 1 seeing []]
    (calledSinceRelease log).Nodup ∧ calledSinceRelease log = [2, 0, 1] ∧
      log.map (fun entry => entry.answer.map fun walk => walk.visits.ended) = [some [2], some [1]] ∧
      log.map (fun entry => entry.answer.map fun walk => walk.result) =
        [some (.error (.visitorStopped 0)), some (.ok ())] := by
  intro calls seeing stopping first log
  obtain ⟨_, handed, _⟩ := reported_uses first
    [.walk .debug 3 calls 0 stopping [], .walk .debug 3 calls 1 seeing []]
  exact ⟨handed.nodup, by decide +kernel, by decide +kernel, by decide +kernel⟩

end Evacuation
