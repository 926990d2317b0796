import Evacuation.Proofs.Recorder.History
import Evacuation.Proofs.Recorder.Route
import Evacuation.Proofs.Table.Notes
import Evacuation.Session.Basic

/-!
# Walks that may stop

A walk tries the entries of a listing in the order of its round, and ends at the first fault: of the
claim board, which refuses an entry beyond its range, or of the visitor, which looks the region up and
visits it.  `Traversal` says what each of these leaves behind: the visits of the entries that were free
before, in order, and the claims of all entries tried, without the one that was refused and with the one
that was visited in vain.

`walkOver_traversal` is the walk over any positions, and `Linked.traversal` that of a worker.
-/

namespace Evacuation

namespace ClaimBoard

def fresh (b : ClaimBoard) (run : List UInt32) : List UInt32 :=
  run.filter fun index => !b.claimed index.toNat

def markAll (b : ClaimBoard) (run : List UInt32) : ClaimBoard :=
  run.foldl mark b

/-- The claims of a board grow by those of a run of entries, and nothing else of it changes. -/
structure Grows (b : ClaimBoard) (run : List UInt32) (after : ClaimBoard) : Prop where
  workers : after.workers = b.workers
  size : after.claims.size = b.claims.size
  claimed_iff : ∀ j, after.claimed j = true ↔
    b.claimed j = true ∨ ∃ index ∈ run, index.toNat = j

section Runs

variable {b : ClaimBoard} {index : UInt32} {run : List UInt32}

theorem size_mark (b : ClaimBoard) (index : UInt32) : (b.mark index).claims.size = b.claims.size :=
  Array.size_setIfInBounds

theorem size_markAll (b : ClaimBoard) (run : List UInt32) :
    (b.markAll run).claims.size = b.claims.size := by
  induction run generalizing b with
  | nil => rfl
  | cons index rest ih => exact (ih (b.mark index)).trans (b.size_mark index)

theorem workers_markAll (b : ClaimBoard) (run : List UInt32) :
    (b.markAll run).workers = b.workers := by
  induction run generalizing b with
  | nil => rfl
  | cons index rest ih => exact ih (b.mark index)

/-- The claims after a run are those before it and the entries of the run. -/
theorem claimed_markAll (covered : ∀ index ∈ run, index.toNat < b.claims.size) (j : Nat) :
    (b.markAll run).claimed j = true ↔
      b.claimed j = true ∨ ∃ index ∈ run, index.toNat = j := by
  induction run generalizing b with
  | nil => simp [markAll]
  | cons index rest ih =>
      have inside := covered index List.mem_cons_self
      have others : ∀ other ∈ rest, other.toNat < (b.mark index).claims.size := by
        intro other member
        rw [b.size_mark index]
        exact covered other (List.mem_cons_of_mem _ member)
      have step := ih others
      rw [claimed_mark inside, Bool.or_eq_true, decide_eq_true_eq, or_assoc] at step
      rw [List.exists_mem_cons_iff]
      exact step

theorem grows_markAll
    (covered : ∀ index ∈ run, index.toNat < b.claims.size) : b.Grows run (b.markAll run) :=
  ⟨b.workers_markAll run, b.size_markAll run, claimed_markAll covered⟩

/-- It does not matter in which order the claims were set. -/
theorem Grows.congr {after : ClaimBoard} {other : List UInt32} (h : b.Grows run after)
    (same : ∀ index, index ∈ run ↔ index ∈ other) : b.Grows other after where
  workers := h.workers
  size := h.size
  claimed_iff := by
    intro j
    simp only [← same]
    exact h.claimed_iff j

theorem fresh_cons_of_claimed (taken : b.claimed index.toNat = true) :
    b.fresh (index :: run) = b.fresh run :=
  List.filter_cons_of_neg (by simp [taken])

theorem fresh_cons_of_free (free : b.claimed index.toNat = false) :
    b.fresh (index :: run) = index :: b.fresh run :=
  List.filter_cons_of_pos (by simp [free])

/-- A claim is no claim of the other entries. -/
theorem fresh_mark (inside : index.toNat < b.claims.size) (apart : index ∉ run) :
    (b.mark index).fresh run = b.fresh run := by
  refine List.filter_congr fun other member => ?_
  have different : index.toNat ≠ other.toNat := by
    intro same
    rw [UInt32.toNat_inj.mp same] at apart
    exact apart member
  rw [claimed_mark inside, decide_eq_false different, Bool.or_false]

end Runs

end ClaimBoard

variable {σ : Type}

/-- Visits entries one after another, up to the first visit that faults. -/
def visitAll (visit : Visitor σ) : List UInt32 → σ → Except Fault Unit × σ
  | [], state => (.ok (), state)
  | index :: rest, state =>
    match visit index state with
    | (.error fault, state) => (.error fault, state)
    | (.ok (), state) => visitAll visit rest state

structure Passed (visit : Visitor σ) (board : ClaimBoard) (state : σ) (run : List UInt32) (now : σ) :
    Prop where
  covered : ∀ index ∈ run, index.toNat < board.claims.size
  visited : visitAll visit (board.fresh run) state = (.ok (), now)

/-- What a walk that tries the entries of a round in turn comes to. -/
inductive Traversal (visit : Visitor σ) (board : ClaimBoard) (state : σ) :
    List UInt32 → Walk σ → Prop where
  | whole {round : List UInt32} {now : σ} (passed : Passed visit board state round now) :
      Traversal visit board state round ⟨.ok (), board.markAll round, now⟩
  | refused {before after : List UInt32} {index : UInt32} {now : σ}
      (passed : Passed visit board state before now) (beyond : board.claims.size ≤ index.toNat) :
      Traversal visit board state (before ++ index :: after)
        ⟨.error (.indexOutOfBounds board.claims.size index.toNat), board.markAll before, now⟩
  | stopped {before after : List UInt32} {index : UInt32} {now last : σ} {fault : Fault}
      (passed : Passed visit board state before now) (inside : index.toNat < board.claims.size)
      (free : board.claimed index.toNat = false)
      (faulted : visit index now = (.error fault, last)) :
      Traversal visit board state (before ++ index :: after)
        ⟨.error fault, board.markAll (before ++ [index]), last⟩

/-! ## One entry more -/

section Step

variable {visit : Visitor σ} {board : ClaimBoard} {state next now : σ} {index : UInt32}
  {run : List UInt32} {walk : Walk σ}

theorem Passed.nil (visit : Visitor σ) (board : ClaimBoard) (state : σ) :
    Passed visit board state [] state where
  covered := nofun
  visited := rfl

theorem Passed.pass (h : Passed visit board state run now) (inside : index.toNat < board.claims.size)
    (taken : board.claimed index.toNat = true) : Passed visit board state (index :: run) now where
  covered := List.forall_mem_cons.mpr ⟨inside, h.covered⟩
  visited := by
    rw [ClaimBoard.fresh_cons_of_claimed taken]
    exact h.visited

theorem Passed.win (h : Passed visit (board.mark index) next run now)
    (inside : index.toNat < board.claims.size) (free : board.claimed index.toNat = false)
    (apart : index ∉ run) (visited : visit index state = (.ok (), next)) :
    Passed visit board state (index :: run) now where
  covered := by
    have others := h.covered
    rw [board.size_mark index] at others
    exact List.forall_mem_cons.mpr ⟨inside, others⟩
  visited := by
    rw [ClaimBoard.fresh_cons_of_free free, visitAll, visited, ← ClaimBoard.fresh_mark inside apart]
    exact h.visited

/-- An entry that is claimed is passed over. -/
theorem Traversal.pass (h : Traversal visit board state run walk)
    (inside : index.toNat < board.claims.size) (taken : board.claimed index.toNat = true) :
    Traversal visit board state (index :: run) walk := by
  have marked (entries : List UInt32) : board.markAll (index :: entries) = board.markAll entries :=
    congrArg (ClaimBoard.markAll · entries) (ClaimBoard.mark_claimed taken)
  cases h with
  | whole passed =>
      rw [← marked]
      exact .whole (passed.pass inside taken)
  | refused passed beyond =>
      rw [← marked]
      exact .refused (passed.pass inside taken) beyond
  | stopped passed within free faulted =>
      rw [← marked]
      exact .stopped (passed.pass inside taken) within free faulted

/-- An entry that is free is claimed and visited. -/
theorem Traversal.win (h : Traversal visit (board.mark index) next run walk)
    (inside : index.toNat < board.claims.size) (free : board.claimed index.toNat = false)
    (apart : index ∉ run) (visited : visit index state = (.ok (), next)) :
    Traversal visit board state (index :: run) walk := by
  cases h with
  | whole passed => exact .whole (passed.win inside free apart visited)
  | refused passed beyond =>
      have early := fun member => apart (List.mem_append_left _ member)
      rw [board.size_mark index] at beyond ⊢
      exact .refused (passed.win inside free early visited) beyond
  | stopped passed within unclaimed faulted =>
      have early := fun member => apart (List.mem_append_left _ member)
      rw [board.size_mark index] at within
      rw [ClaimBoard.claimed_mark inside, Bool.or_eq_false_iff] at unclaimed
      exact .stopped (passed.win inside free early visited) within unclaimed.1 faulted

end Step

/-! ## Walks -/

/-- A walk over positions of a journal is a traversal of the entries found there. -/
theorem Recorder.walkOver_traversal {journal : Journal} {listing : List UInt32}
    (read : ∀ position, journal.get? position = .ok listing[position]?) (visit : Visitor σ)
    (positions : List Nat) (board : ClaimBoard) (state : σ)
    (distinct : (positions.filterMap fun position => listing[position]?).Nodup) :
    Traversal visit board state (positions.filterMap fun position => listing[position]?)
      (walkOver journal visit positions board state) := by
  induction positions generalizing board state with
  | nil => exact .whole (.nil visit board state)
  | cons position rest ih =>
      cases entry : listing[position]? with
      | none =>
          rw [List.filterMap_cons_none entry] at distinct ⊢
          simp only [walkOver, claimEntry, read, entry]
          exact ih board state distinct
      | some index =>
          rw [List.filterMap_cons_some entry] at distinct ⊢
          obtain ⟨apart, others⟩ := List.nodup_cons.mp distinct
          by_cases inside : index.toNat < board.claims.size
          · cases taken : board.claimed index.toNat with
            | true =>
                simp only [walkOver, claimEntry, read, entry, ClaimBoard.claim_of_lt inside, taken,
                  ClaimBoard.mark_claimed taken, Except.map]
                exact (ih board state others).pass inside taken
            | false =>
                rcases visited : visit index state with ⟨fault | _, next⟩ <;>
                  simp only [walkOver, claimEntry, read, entry, ClaimBoard.claim_of_lt inside, taken,
                    Except.map, Bool.not_false, ↓reduceIte, visited]
                · exact .stopped (.nil visit board state) inside taken visited
                · exact (ih (board.mark index) next others).win inside taken apart visited
          · have beyond : board.claims.size ≤ index.toNat := Nat.le_of_not_lt inside
            simp only [walkOver, claimEntry, read, entry, ClaimBoard.claim_of_le beyond, Except.map]
            exact .refused (.nil visit board state) beyond

/-! ## Workers -/

theorem Recorder.Linked.traversal_of_route {r : Recorder} (h : r.Linked) {profile : Profile}
    {board : ClaimBoard} {worker : UInt64} {start : Nat}
    (routed : r.route profile board worker = .ok (roundFrom start r.journal.entries.length))
    (visit : Visitor σ) (state : σ) :
    Traversal visit board state
      (r.journal.entries.drop start ++ r.journal.entries.take start)
      (r.walk profile board worker visit state) := by
  have distinct := h.nodup_round start
  rw [Recorder.walk, routed]
  rw [← filterMap_roundFrom] at distinct ⊢
  exact walkOver_traversal (Journal.get?_eq h.reserved) visit _ board state distinct

/-- A worker that is given a start traverses the round from there. -/
theorem Recorder.Linked.traversal {r : Recorder} (h : r.Linked) {profile : Profile}
    (readable : r.readable profile = .ok ()) {board : ClaimBoard} {worker start : UInt64}
    (offset : board.offset profile worker r.journal.cursor = .ok start) (visit : Visitor σ)
    (state : σ) :
    Traversal visit board state
      (r.journal.entries.drop start.toNat ++ r.journal.entries.take start.toNat)
      (r.walk profile board worker visit state) :=
  h.traversal_of_route (h.route_eq readable offset) visit state

/-- A worker that is refused leaves the board and the visitor alone; any other traverses some round. -/
theorem Recorder.Linked.walk_cases {r : Recorder} (h : r.Linked) (profile : Profile)
    (board : ClaimBoard) (worker : UInt64) (visit : Visitor σ) (state : σ) :
    (∃ fault, r.walk profile board worker visit state = ⟨.error fault, board, state⟩) ∨
      ∃ start : Nat, Traversal visit board state
        (r.journal.entries.drop start ++ r.journal.entries.take start)
        (r.walk profile board worker visit state) := by
  obtain ⟨fault, refused⟩ | ⟨start, routed⟩ := h.route_cases profile board worker
  · refine Or.inl ⟨fault, ?_⟩
    rw [Recorder.walk, refused]
  · exact Or.inr ⟨start, h.traversal_of_route routed visit state⟩

/-- Visits of regions that are all found, by a visitor that never faults, are told to it in order. -/
theorem visitAll_visitor {τ : Type} [Layout τ] {table : Table τ}
    {visit : Region → σ → Except Fault Unit × σ} {run : List UInt32}
    (resolves : ∀ index ∈ run, table.Resolves index)
    (calm : ∀ region state, (visit region state).1 = .ok ()) (state : σ) :
    ∃ regions, List.Forall₂ (fun index region => table.region index = .ok region) run regions ∧
      visitAll (table.visitor visit) run state =
        (.ok (), regions.foldl (fun state region => (visit region state).2) state) := by
  induction run generalizing state with
  | nil => exact ⟨[], .nil, rfl⟩
  | cons index rest ih =>
      obtain ⟨region, found⟩ := resolves index List.mem_cons_self
      have others : ∀ other ∈ rest, table.Resolves other :=
        fun other member => resolves other (List.mem_cons_of_mem _ member)
      obtain ⟨regions, same, visited⟩ := ih others (visit region state).2
      refine ⟨region :: regions, .cons found same, ?_⟩
      have first : table.visitor visit index state = (.ok (), (visit region state).2) := by
        rw [Table.visitor, found]
        exact Prod.ext (calm region state) rfl
      rw [visitAll, first]
      exact visited

/-- What a walk comes to that nothing stops: the visitor is told the regions behind the entries that were
free, in the order of the round and each once, and the claims grow by the listing. -/
structure Toured {τ : Type} [Layout τ] (table : Table τ) (visit : Region → σ → Except Fault Unit × σ)
    (board : ClaimBoard) (listing : List UInt32) (start : Nat) (state : σ) (walk : Walk σ) : Prop where
  result : walk.result = .ok ()
  visits : ∃ regions,
    List.Forall₂ (fun index region => table.region index = .ok region)
      (board.fresh (listing.drop start ++ listing.take start)) regions ∧
    walk.visits = regions.foldl (fun state region => (visit region state).2) state
  once : (board.fresh (listing.drop start ++ listing.take start)).Nodup
  claims : board.Grows listing walk.board

/-- Nothing stops a traversal of entries that the board covers and the table resolves, with a visitor
that never faults. -/
theorem Traversal.toured {τ : Type} [Layout τ] {table : Table τ}
    {visit : Region → σ → Except Fault Unit × σ} {board : ClaimBoard} {listing : List UInt32}
    {start : Nat} {state : σ} {walk : Walk σ}
    (h : Traversal (table.visitor visit) board state (listing.drop start ++ listing.take start) walk)
    (distinct : listing.Nodup) (covered : ∀ index ∈ listing, index.toNat < board.claims.size)
    (resolves : ∀ index ∈ listing, table.Resolves index)
    (calm : ∀ region state, (visit region state).1 = .ok ()) :
    Toured table visit board listing start state walk := by
  have turned := perm_drop_append_take listing start
  generalize round_eq : listing.drop start ++ listing.take start = round at h turned
  cases h with
  | whole passed =>
      have found : ∀ index ∈ board.fresh round, table.Resolves index :=
        fun index member => resolves index (turned.mem_iff.mp (List.mem_of_mem_filter member))
      obtain ⟨regions, same, visited⟩ := visitAll_visitor found calm state
      rw [passed.visited] at visited
      refine ⟨rfl, ⟨regions, round_eq ▸ same, congrArg Prod.snd visited⟩, ?_,
        (ClaimBoard.grows_markAll passed.covered).congr fun index => turned.mem_iff⟩
      rw [round_eq]
      exact (turned.nodup_iff.mpr distinct).filter _
  | @refused before after index now passed beyond =>
      have member : index ∈ listing := turned.mem_iff.mp (by simp)
      exact absurd (covered index member) (Nat.not_lt.mpr beyond)
  | @stopped before after index now last fault passed inside free faulted =>
      have member : index ∈ listing := turned.mem_iff.mp (by simp)
      obtain ⟨region, found⟩ := resolves index member
      have fine : (table.visitor visit index now).1 = .ok () := by
        rw [Table.visitor, found]
        exact calm region now
      rw [faulted] at fine
      cases fine

/-- A start beyond the last entry is as good as one at the first. -/
theorem round_min {α : Type} (entries : List α) (start : Nat) :
    entries.drop (min start entries.length) ++ entries.take (min start entries.length) =
      entries.drop start ++ entries.take start := by
  rcases Nat.le_total start entries.length with within | beyond
  · rw [Nat.min_eq_left within]
  · rw [Nat.min_eq_right beyond, List.drop_length, List.take_length, List.drop_of_length_le beyond,
      List.take_of_length_le beyond]

/-- In a session a walk changes the claims of its board and nothing else, whether it comes to its end or
not, and emits nothing. -/
theorem Session.step_walk {τ : Type} {n m : Nat} [Layout τ] {s : Session τ n m} {number : Nat}
    {board : ClaimBoard} (found : s.boards[number]? = some board) (profile : Profile)
    (capture : Level) (worker : UInt64) (limit : Option Nat) :
    let walk := s.recorder.walk profile board worker (s.table.visitor (listVisits limit)) #[]
    s.step profile capture (.walk number worker limit) =
      (⟨.answered (.walk walk.visits.toList (stopOf walk.result)), s.recorder.phase, []⟩,
        { s with boards := s.boards.setIfInBounds number walk.board }) := by
  simp [step, execute, onBoard, found, Verdict.ofResult, Event.captured, recorder]

/-- A walk with a visitor that never faults, over a listing that the board covers and the table
resolves: it begins at the worker's share of the way in, goes once round the listing from there, and
visits what was free.  A worker within range begins within the listing, also where the product of its
share wraps, and reads every slot once.  In a session it changes nothing but its board. -/
theorem toured_walk {τ : Type} [Layout τ] {profile : Profile} {size : UInt32}
    {calls : List (Call τ σ)} {r : Recorder}
    (reached : r = (Recorder.ofSize size).afterCalls profile calls)
    (readable : r.readable profile = .ok ()) (listed : r.journal.entries ≠ [])
    {board : ClaimBoard} (covered : ∀ index ∈ r.journal.entries, index.toNat < board.claims.size)
    {table : Table τ} (resolves : ∀ index ∈ r.journal.entries, table.Resolves index)
    {worker start : UInt64} (offset : board.offset profile worker r.journal.cursor = .ok start)
    {visit : Region → σ → Except Fault Unit × σ}
    (calm : ∀ region state, (visit region state).1 = .ok ()) (state : σ) :
    let len := r.journal.entries.length
    let s := len * worker.toNat % UInt64.size / board.workers.toNat
    start.toNat = s ∧
      Toured table visit board r.journal.entries (min s len) state
        (r.walk profile board worker (table.visitor visit) state) ∧
      (worker < board.workers → s < len ∧
        r.route profile board worker = .ok (List.range' s (len - s) ++ List.range s) ∧
        (List.range' s (len - s) ++ List.range s).Perm (List.range len)) ∧
      ∀ (n m : Nat) (capture : Level) (session : Session τ n m) (number : Nat) (limit : Option Nat),
        session.recorder = r → session.table = table → session.boards[number]? = some board →
          (session.step profile capture (.walk number worker limit)).2 =
            { session with
              boards := session.boards.setIfInBounds number
                (r.walk profile board worker (table.visitor (Session.listVisits limit)) #[]).board } := by
  intro len s
  have linked : r.Linked := by
    rw [reached]
    exact (Recorder.blank_ofSize size).linked.afterCalls profile calls
  have counted : r.journal.cursor.toNat = len := linked.length_entries.symm
  have share : start.toNat = s := by
    rw [ClaimBoard.toNat_offset offset, counted]
  have traversed := linked.traversal readable offset (table.visitor visit) state
  rw [share, ← round_min] at traversed
  refine ⟨share, traversed.toured linked.listed.nodup covered resolves calm, ?_, ?_⟩
  · intro numbered
    have inside : s < len :=
      share_lt (List.length_pos_iff.mpr listed) (UInt64.lt_iff_toNat_lt.mp numbered)
    have round := roundFrom_of_le (Nat.le_of_lt inside)
    refine ⟨inside, ?_, ?_⟩
    · rw [← round, ← share]
      exact linked.route_eq readable offset
    · rw [← round]
      exact perm_drop_append_take (List.range len) s
  · rintro n m capture session number limit rfl rfl found
    exact congrArg Prod.snd (Session.step_walk found profile capture worker limit)

/-- The last of many workers, whose product wraps, starts at the second of three regions, passes over it
because it is claimed, and visits the third and the first. -/
theorem toured_walk_wrapped :
    let r := (Recorder.ofSize 3).afterCalls .release
      [.beginPause 3 3 .zero, .record (Table.ofSize 3) 2, .record (Table.ofSize 3) 0,
        .record (Table.ofSize 3) 1, (.sealPause 0 .zero : Call Plan (List UInt32))]
    let board : ClaimBoard := ⟨11529215046068469760, #[true, false, false], by decide⟩
    let visit : Region → List UInt32 → Except Fault Unit × List UInt32 :=
      fun region seen => (.ok (), seen ++ [region.index])
    let walk := r.walk .release board 11529215046068469759 ((Table.ofSize 3).visitor visit) []
    r.journal.entries = [2, 0, 1] ∧
      board.offset .release 11529215046068469759 r.journal.cursor = .ok 1 ∧
      Toured (Table.ofSize 3) visit board [2, 0, 1] 1 [] walk ∧ walk.visits = [1, 2] := by
  intro r board visit walk
  have entries : r.journal.entries = [2, 0, 1] := by decide +kernel
  have offset : board.offset .release 11529215046068469759 r.journal.cursor = .ok 1 := by
    decide +kernel
  have covered : ∀ index ∈ r.journal.entries, index.toNat < board.claims.size := by
    rw [entries]
    simp [board]
  have resolves : ∀ index ∈ r.journal.entries, (Table.ofSize 3).Resolves index :=
    fun index member => Table.resolves_ofSize (covered index member)
  have listed : r.journal.entries ≠ [] := by
    rw [entries]
    simp
  have calm : ∀ region seen, (visit region seen).1 = .ok () := fun _ _ => rfl
  obtain ⟨share, toured, _⟩ := toured_walk rfl rfl listed covered resolves offset calm []
  rw [← share, entries] at toured
  exact ⟨entries, offset, toured, by decide +kernel⟩

end Evacuation
