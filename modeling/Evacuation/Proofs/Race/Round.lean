import Evacuation.Proofs.Race.Turn
import Evacuation.Proofs.Recorder.History
import Evacuation.Proofs.Recorder.Route
import Evacuation.Proofs.Table.Notes
import Evacuation.Race.Walking

/-!
# Workers that share a walk

Workers walk one sealed listing at the same time, each once round the listing from a start of its own,
and race for its entries on one claim board.  `Rounds` is the invariant: what was handed out to any
worker is what has been claimed since the start, each entry once, and an entry that a worker has left
behind is claimed.
-/

namespace Evacuation.Race

variable {τ : Type} [Layout τ]

/-! ## One step of a worker -/

/-- What one step of a worker on a claim board can come to, while every entry can be claimed and
visited. -/
inductive Pace (listing : List UInt32) : Walker × ClaimBoard → Walker × ClaimBoard → Prop where
  | rest {w : Walker} {b : ClaimBoard} (finished : w.finished = true) : Pace listing (w, b) (w, b)
  | visit {w : Walker} {b : ClaimBoard} {index : UInt32} (running : w.stop = none)
      (held : w.held = some index) : Pace listing (w, b) (w.visit index, b)
  | pass {w : Walker} {b : ClaimBoard} {position : Nat} {rest : List Nat} (running : w.stop = none)
      (free : w.held = none) (ahead : w.ahead = position :: rest)
      (taken : ∀ index, listing[position]? = some index → b.claimed index.toNat = true) :
      Pace listing (w, b) ({ w with ahead := rest, held := none }, b)
  | win {w : Walker} {b : ClaimBoard} {position : Nat} {rest : List Nat} {index : UInt32}
      (running : w.stop = none) (free : w.held = none) (ahead : w.ahead = position :: rest)
      (entry : listing[position]? = some index) (inside : index.toNat < b.claims.size)
      (unclaimed : b.claimed index.toNat = false) :
      Pace listing (w, b) ({ w with ahead := rest, held := some index }, b.mark index)

theorem Walker.step_pace {journal : Journal} {listing : List UInt32} {table : Table τ} {w : Walker}
    {b : ClaimBoard} (read : ∀ position, journal.get? position = .ok listing[position]?)
    (resolves : ∀ index, w.held = some index → table.Resolves index)
    (covered : ∀ index ∈ listing, index.toNat < b.claims.size) :
    Pace listing (w, b) (w.step journal table b) := by
  cases stopped : w.stop with
  | some fault =>
      have step : w.step journal table b = (w, b) := by simp [Walker.step, stopped]
      rw [step]
      exact .rest (by simp [finished, stopped])
  | none =>
      cases holding : w.held with
      | some index =>
          obtain ⟨region, found⟩ := resolves index holding
          have step : w.step journal table b = (w.visit index, b) := by
            simp [Walker.step, stopped, holding, found]
          rw [step]
          exact .visit stopped holding
      | none =>
          cases ahead : w.ahead with
          | nil =>
              have step : w.step journal table b = (w, b) := by
                simp [Walker.step, stopped, holding, ahead]
              rw [step]
              exact .rest (by simp [finished, stopped, holding, ahead])
          | cons position rest =>
              cases entry : listing[position]? with
              | none =>
                  have step : w.step journal table b = ({ w with ahead := rest, held := none }, b) := by
                    simp [Walker.step, stopped, holding, ahead, claimEntry, read, entry]
                  rw [step]
                  refine .pass stopped holding ahead ?_
                  intro index found
                  exact absurd (entry.symm.trans found) nofun
              | some index =>
                  have inside := covered index (List.mem_of_getElem? entry)
                  cases taken : b.claimed index.toNat with
                  | true =>
                      have step : w.step journal table b =
                          ({ w with ahead := rest, held := none }, b) := by
                        simp [Walker.step, stopped, holding, ahead, claimEntry, read, entry,
                          ClaimBoard.claim_of_lt inside, taken, Except.map,
                          ClaimBoard.mark_claimed taken]
                      rw [step]
                      refine .pass stopped holding ahead ?_
                      intro other found
                      rw [entry] at found
                      rw [← Option.some.inj found]
                      exact taken
                  | false =>
                      have step : w.step journal table b =
                          ({ w with ahead := rest, held := some index }, b.mark index) := by
                        simp [Walker.step, stopped, holding, ahead, claimEntry, read, entry,
                          ClaimBoard.claim_of_lt inside, taken, Except.map]
                      rw [step]
                      exact .win stopped holding ahead entry inside taken

/-! ## What all workers have been handed -/

/-- The entries that a worker has won, in order. -/
def Walker.handed (w : Walker) : List UInt32 :=
  w.visited ++ w.held.toList

namespace Walking

def handed (race : Walking τ) : List UInt32 :=
  race.walkers.flatMap Walker.handed

omit [Layout τ] in
theorem visited_sublist_handed (race : Walking τ) : race.visited.Sublist race.handed := by
  unfold visited handed
  induction race.walkers with
  | nil => exact List.Sublist.refl []
  | cons w rest ih =>
      rw [List.flatMap_cons, List.flatMap_cons]
      exact (List.sublist_append_left w.visited w.held.toList).append ih

/-- A walk over a listing that began with the given board. -/
structure Rounds (listing : List UInt32) (first : ClaimBoard) (race : Walking τ) : Prop where
  read : ∀ position, race.journal.get? position = .ok listing[position]?
  distinct : listing.Nodup
  resolves : ∀ index ∈ listing, race.table.Resolves index
  covered : ∀ index ∈ listing, index.toNat < first.claims.size
  size : race.board.claims.size = first.claims.size
  workers : race.board.workers = first.workers
  running : ∀ w ∈ race.walkers, w.stop = none
  behind : ∀ w ∈ race.walkers, ∀ position index, listing[position]? = some index →
    position ∈ w.ahead ∨ race.board.claimed index.toNat = true
  nodup : race.handed.Nodup
  free : ∀ index ∈ race.handed, index ∈ listing ∧ first.claimed index.toNat = false
  claims : ∀ j, race.board.claimed j = true ↔
    first.claimed j = true ∨ ∃ index ∈ race.handed, index.toNat = j

theorem Rounds.step_pace {listing : List UInt32} {first : ClaimBoard} {race : Walking τ}
    (h : Rounds listing first race) {w : Walker} (member : w ∈ race.walkers) :
    Pace listing (w, race.board) (w.step race.journal race.table race.board) := by
  refine Walker.step_pace h.read ?_ ?_
  · intro index held
    refine h.resolves index (h.free index (List.mem_flatMap.mpr ⟨w, member, ?_⟩)).1
    rw [Walker.handed, held]
    exact List.mem_append_right _ (List.mem_singleton_self index)
  · intro index entry
    rw [h.size]
    exact h.covered index entry

section Step

variable {listing : List UInt32} {first : ClaimBoard} {journal : Journal} {table : Table τ}
  {b : ClaimBoard} {w : Walker} {before after : List Walker}

/-- A step that hands out nothing. -/
theorem Rounds.keep {w' : Walker} (h : Rounds listing first ⟨journal, table, b, before ++ w :: after⟩)
    (handed : w'.handed = w.handed) (running : w'.stop = none)
    (behind : ∀ position index, listing[position]? = some index →
      position ∈ w'.ahead ∨ b.claimed index.toNat = true) :
    Rounds listing first ⟨journal, table, b, before ++ w' :: after⟩ := by
  have same : Walking.handed ⟨journal, table, b, before ++ w' :: after⟩ =
      Walking.handed ⟨journal, table, b, before ++ w :: after⟩ := flatMap_replace handed
  refine ⟨h.read, h.distinct, h.resolves, h.covered, h.size, h.workers,
    forall_mem_replace h.running (fun _ kept => kept) running,
    forall_mem_replace h.behind (fun _ kept => kept) behind, ?_, ?_, ?_⟩
  · rw [same]
    exact h.nodup
  · rw [same]
    exact h.free
  · rw [same]
    exact h.claims

/-- A step that hands out an entry. -/
theorem Rounds.win {index : UInt32} {position : Nat} {rest : List Nat}
    (h : Rounds listing first ⟨journal, table, b, before ++ w :: after⟩) (running : w.stop = none)
    (free : w.held = none) (ahead : w.ahead = position :: rest)
    (entry : listing[position]? = some index) (inside : index.toNat < b.claims.size)
    (unclaimed : b.claimed index.toNat = false) :
    Rounds listing first ⟨journal, table, b.mark index,
      before ++ { w with ahead := rest, held := some index } :: after⟩ := by
  have more : ({ w with ahead := rest, held := some index } : Walker).handed =
      w.handed ++ [index] := by
    rw [Walker.handed, Walker.handed, free, Option.toList_none, List.append_nil]
    rfl
  have perm : ((before ++ w :: after).flatMap Walker.handed ++ [index]).Perm _ :=
    perm_flatMap_replace more
  have fresh : index ∉ (before ++ w :: after).flatMap Walker.handed := by
    intro member
    have claimed := (h.claims index.toNat).mpr (Or.inr ⟨index, member, rfl⟩)
    rw [unclaimed] at claimed
    cases claimed
  have grows {j : Nat} (claimed : b.claimed j = true) : (b.mark index).claimed j = true := by
    rw [ClaimBoard.claimed_mark inside, claimed, Bool.true_or]
  refine ⟨h.read, h.distinct, h.resolves, h.covered, ?_, h.workers,
    forall_mem_replace h.running (fun _ kept => kept) running, ?_, ?_, ?_, ?_⟩
  · rw [← h.size]
    exact Array.size_setIfInBounds
  · refine forall_mem_replace h.behind ?_ ?_
    · intro v kept other j found
      exact (kept other j found).imp_right grows
    · intro other j found
      rcases h.behind w mem_turn other j found with later | claimed
      · rw [ahead] at later
        rcases List.mem_cons.mp later with rfl | later
        · right
          rw [entry] at found
          rw [← Option.some.inj found, ClaimBoard.claimed_mark inside, decide_eq_true rfl,
            Bool.or_true]
        · exact Or.inl later
      · exact Or.inr (grows claimed)
  · refine perm.nodup_iff.mp (List.nodup_append.mpr ⟨h.nodup, List.nodup_singleton index, ?_⟩)
    intro i member j last same
    rw [same, List.mem_singleton.mp last] at member
    exact fresh member
  · intro j member
    rcases List.mem_append.mp (perm.mem_iff.mpr member) with early | last
    · exact h.free j early
    · rw [List.mem_singleton.mp last]
      refine ⟨List.mem_of_getElem? entry, ?_⟩
      cases taken : first.claimed index.toNat with
      | false => rfl
      | true =>
          have claimed := (h.claims index.toNat).mpr (Or.inl taken)
          rw [unclaimed] at claimed
          cases claimed
  · intro j
    rw [ClaimBoard.claimed_mark inside, Bool.or_eq_true, decide_eq_true_eq]
    constructor
    · rintro (claimed | rfl)
      · rcases (h.claims j).mp claimed with early | ⟨i, member, same⟩
        · exact Or.inl early
        · exact Or.inr ⟨i, perm.mem_iff.mp (List.mem_append_left _ member), same⟩
      · exact Or.inr ⟨index, perm.mem_iff.mp (List.mem_append_right _ (List.mem_singleton_self _)), rfl⟩
    · rintro (early | ⟨i, member, same⟩)
      · exact Or.inl ((h.claims j).mpr (Or.inl early))
      · rcases List.mem_append.mp (perm.mem_iff.mpr member) with old | last
        · exact Or.inl ((h.claims j).mpr (Or.inr ⟨i, old, same⟩))
        · exact Or.inr (List.mem_singleton.mp last ▸ same)

theorem Rounds.move {w' : Walker} {b' : ClaimBoard}
    (h : Rounds listing first ⟨journal, table, b, before ++ w :: after⟩)
    (paced : Pace listing (w, b) (w', b')) :
    Rounds listing first ⟨journal, table, b', before ++ w' :: after⟩ := by
  have behind := h.behind w mem_turn
  cases paced with
  | rest finished => exact h
  | visit running held =>
      refine h.keep ?_ running behind
      rw [Walker.handed, Walker.handed, Walker.visited_visit, held]
      exact List.append_nil _
  | pass running free ahead taken =>
      refine h.keep ?_ running ?_
      · rw [Walker.handed, Walker.handed, free]
        rfl
      · intro other j found
        rcases behind other j found with later | claimed
        · rw [ahead] at later
          rcases List.mem_cons.mp later with rfl | later
          · exact Or.inr (taken j found)
          · exact Or.inl later
        · exact Or.inr claimed
  | win running free ahead entry inside unclaimed =>
      exact h.win running free ahead entry inside unclaimed

end Step

theorem Rounds.step {listing : List UInt32} {first : ClaimBoard} {race : Walking τ}
    (h : Rounds listing first race) (worker : Nat) : Rounds listing first (race.step worker) := by
  unfold Walking.step
  cases found : race.walkers[worker]? with
  | none => exact h
  | some w =>
      have paced := h.step_pace (List.mem_of_getElem? found)
      obtain ⟨journal, table, board, walkers⟩ := race
      obtain ⟨before, after, rfl, changed⟩ := exists_turn found
      dsimp only at paced ⊢
      rw [changed]
      exact h.move paced

theorem Rounds.run {listing : List UInt32} {first : ClaimBoard} {race : Walking τ}
    (h : Rounds listing first race) (schedule : List Nat) :
    Rounds listing first (race.run schedule) := by
  induction schedule generalizing race with
  | nil => exact h
  | cons worker rest ih => exact ih (h.step worker)

/-! ## Every interleaving -/

theorem rounds_start {r : Recorder} (linked : r.Linked) {profile : Profile}
    (readable : r.readable profile = .ok ()) {board : ClaimBoard} {table : Table τ}
    (covered : ∀ index ∈ r.journal.entries, index.toNat < board.claims.size)
    (resolves : ∀ index ∈ r.journal.entries, table.Resolves index) {workers : List UInt64}
    (numbered : ∀ worker ∈ workers, worker < board.workers)
    (fits : profile.checks = true → ∀ worker ∈ workers,
      r.journal.entries.length * worker.toNat < UInt64.size) :
    Rounds r.journal.entries board (start profile r table board workers) := by
  have each : ∀ w ∈ (start profile r table board workers).walkers, ∃ positions : List Nat,
      w = ⟨positions, none, [], none⟩ ∧
        ∀ position < r.journal.entries.length, position ∈ positions := by
    intro w member
    obtain ⟨worker, listed, rfl⟩ := List.mem_map.mp member
    obtain ⟨positions, route, whole⟩ := linked.route readable (numbered worker listed)
      fun checks => fits checks worker listed
    exact ⟨positions, by rw [route]; rfl, whole⟩
  have nothing : (start profile r table board workers).handed = [] := by
    rw [handed, List.flatMap_eq_nil_iff]
    intro w member
    obtain ⟨positions, rfl, _⟩ := each w member
    rfl
  refine ⟨Journal.get?_eq linked.reserved, linked.listed.nodup, resolves, covered, rfl, rfl, ?_, ?_, ?_,
    ?_, ?_⟩
  · intro w member
    obtain ⟨positions, rfl, _⟩ := each w member
    rfl
  · intro w member position index entry
    obtain ⟨positions, rfl, whole⟩ := each w member
    exact Or.inl (whole position (List.getElem?_eq_some_iff.mp entry).1)
  · rw [nothing]
    exact List.nodup_nil
  · rw [nothing]
    nofun
  · intro j
    rw [nothing]
    simp [start]

/-- What a race of workers over a listing grants, of which the given board had claims already. -/
structure Shares (listing : List UInt32) (first : ClaimBoard) (race : Walking τ) : Prop where
  visited_nodup : race.visited.Nodup
  running : ∀ w ∈ race.walkers, w.stop = none
  /-- The first worker to come to its end leaves nothing free. -/
  claimed_of_finished : ∀ w ∈ race.walkers, w.finished = true →
    ∀ index ∈ listing, race.board.claimed index.toNat = true
  visited_perm : race.finished = true →
    race.visited.Perm (listing.filter fun index => !first.claimed index.toNat)
  claimed_iff : race.finished = true → ∀ j, race.board.claimed j = true ↔
    first.claimed j = true ∨ ∃ index ∈ listing, index.toNat = j
  size : race.board.claims.size = first.claims.size
  workers : race.board.workers = first.workers

namespace Rounds

variable {listing : List UInt32} {first : ClaimBoard} {race : Walking τ}

theorem at_end (h : Rounds listing first race) {w : Walker} (member : w ∈ race.walkers)
    (finished : w.finished = true) : w.held = none ∧ w.ahead = [] := by
  simpa [Walker.finished, h.running w member] using finished

theorem claimed_of_finished (h : Rounds listing first race) {w : Walker} (member : w ∈ race.walkers)
    (finished : w.finished = true) (index : UInt32) (entry : index ∈ listing) :
    race.board.claimed index.toNat = true := by
  obtain ⟨position, inside, rfl⟩ := List.mem_iff_getElem.mp entry
  rcases h.behind w member position _ (List.getElem?_eq_getElem inside) with later | claimed
  · rw [(h.at_end member finished).2] at later
    cases later
  · exact claimed

theorem mem_handed_of_claimed (h : Rounds listing first race) {index : UInt32}
    (claimed : race.board.claimed index.toNat = true) (free : first.claimed index.toNat = false) :
    index ∈ race.handed := by
  rcases (h.claims index.toNat).mp claimed with early | ⟨j, member, same⟩
  · rw [free] at early
    cases early
  · exact UInt32.toNat_inj.mp same ▸ member

theorem shares (h : Rounds listing first race) (attended : race.walkers ≠ []) :
    race.Shares listing first := by
  have visited (finished : race.finished = true) : race.visited = race.handed := by
    have each : ∀ w ∈ race.walkers, w.finished = true := List.all_eq_true.mp finished
    unfold Walking.visited handed
    refine List.flatMap_congr fun w member => ?_
    rw [Walker.handed, (h.at_end member (each w member)).1, Option.toList_none, List.append_nil]
  have claimed (finished : race.finished = true) : ∀ index ∈ listing,
      race.board.claimed index.toNat = true := by
    obtain ⟨w, member⟩ := List.exists_mem_of_ne_nil _ attended
    exact h.claimed_of_finished member (List.all_eq_true.mp finished w member)
  refine ⟨h.nodup.sublist race.visited_sublist_handed, h.running,
    fun w member finished => h.claimed_of_finished member finished, ?_, ?_, h.size, h.workers⟩
  · intro finished
    rw [visited finished, List.perm_ext_iff_of_nodup h.nodup (h.distinct.filter _)]
    intro index
    rw [List.mem_filter, Bool.not_eq_true']
    constructor
    · exact h.free index
    · rintro ⟨entry, free⟩
      exact h.mem_handed_of_claimed (claimed finished index entry) free
  · intro finished j
    rw [h.claims j]
    constructor
    · rintro (early | ⟨index, member, same⟩)
      · exact Or.inl early
      · exact Or.inr ⟨index, (h.free index member).1, same⟩
    · rintro (early | ⟨index, entry, rfl⟩)
      · exact Or.inl early
      · exact (h.claims index.toNat).mp (claimed finished index entry)

end Rounds

omit [Layout τ] in
theorem length_walkers_start (profile : Profile) (r : Recorder) (table : Table τ)
    (board : ClaimBoard) (workers : List UInt64) :
    (start profile r table board workers).walkers.length = workers.length :=
  List.length_map _

theorem length_walkers_run (race : Walking τ) (schedule : List Nat) :
    (race.run schedule).walkers.length = race.walkers.length := by
  induction schedule generalizing race with
  | nil => rfl
  | cons worker rest ih =>
      rw [run_cons, ih, step]
      split
      · rfl
      · exact List.length_set

/-- In every interleaving the workers that walk the listing of a sealed recorder share what was free:
none of it is lost, and none of it is visited twice. -/
theorem shares_run_start {σ : Type} {profile : Profile} {size : UInt32} {calls : List (Call τ σ)}
    {r : Recorder} (reached : r = (Recorder.ofSize size).afterCalls profile calls)
    (phase : r.phase = .sealed) {board : ClaimBoard} {table : Table τ}
    (covered : ∀ index ∈ r.journal.entries, index.toNat < board.claims.size)
    (resolves : ∀ index ∈ r.journal.entries, table.Resolves index) {workers : List UInt64}
    (attended : workers ≠ []) (numbered : ∀ worker ∈ workers, worker < board.workers)
    (fits : profile.checks = true → ∀ worker ∈ workers,
      r.journal.entries.length * worker.toNat < UInt64.size) (schedule : List Nat) :
    ((start profile r table board workers).run schedule).Shares r.journal.entries board := by
  have linked : r.Linked := by
    rw [reached]
    exact (Recorder.blank_ofSize size).linked.afterCalls profile calls
  have readable : r.readable profile = .ok () := by simp [Recorder.readable, phase]
  have rounds := (rounds_start linked readable covered resolves numbered fits).run schedule
  refine rounds.shares ?_
  rw [← List.length_pos_iff, length_walkers_run, length_walkers_start, List.length_pos_iff]
  exact attended

/-- Three walks with two numbers share a listing of two regions, one of them claimed before. -/
theorem shares_three_walks :
    let r := (Recorder.ofSize 3).afterCalls .debug
      [.beginPause 3 3 .zero, .record (Table.ofSize 3) 2, .record (Table.ofSize 3) 0,
        (.sealPause 0 .zero : Call Plan Unit)]
    let board : ClaimBoard := ⟨2, #[false, true, true], by decide⟩
    let race := (start .debug r (Table.ofSize 3) board [1, 0, 1]).run [2, 0, 1, 1, 0, 2, 2, 0, 1]
    race.Shares r.journal.entries board ∧ race.finished = true := by
  intro r board race
  have phase : r.phase = .sealed := by decide +kernel
  have entries : r.journal.entries = [2, 0] := by decide +kernel
  have inside : ∀ index ∈ r.journal.entries, index.toNat < 3 := by
    rw [entries]
    simp
  have covered : ∀ index ∈ r.journal.entries, index.toNat < board.claims.size := inside
  have resolves : ∀ index ∈ r.journal.entries, (Table.ofSize 3).Resolves index :=
    fun index member => Table.resolves_ofSize (inside index member)
  have attended : ([1, 0, 1] : List UInt64) ≠ [] := by simp
  have numbered : ∀ worker ∈ [1, 0, 1], worker < board.workers := by simp [board]
  have fits : Profile.debug.checks = true → ∀ worker ∈ ([1, 0, 1] : List UInt64),
      r.journal.entries.length * worker.toNat < UInt64.size := by
    rw [entries]
    simp [UInt64.size]
  exact ⟨shares_run_start rfl phase covered resolves attended numbered fits _,
    by decide +kernel⟩

end Walking

end Evacuation.Race
