import Evacuation.Proofs.ClaimBoard.Shares
import Evacuation.Proofs.Recorder.Linked
import Evacuation.Recorder.Walk

/-!
# Routes

A worker tries every position of the listing once, wherever its route begins.  An entry that is claimed
already is passed over without a trace on the board.
-/

namespace Evacuation

/-- Where a round begins does not matter for what it comes by. -/
theorem perm_drop_append_take {α : Type} (entries : List α) (start : Nat) :
    (entries.drop start ++ entries.take start).Perm entries := by
  refine List.perm_append_comm.trans ?_
  rw [List.take_append_drop]

theorem mem_roundFrom {start length position : Nat} :
    position ∈ roundFrom start length ↔ position < length :=
  (perm_drop_append_take (List.range length) start).mem_iff.trans List.mem_range

/-- A round that begins within the entries counts up to the last one and then up to its start. -/
theorem roundFrom_of_le {start length : Nat} (inside : start ≤ length) :
    roundFrom start length = List.range' start (length - start) ++ List.range start := by
  rw [roundFrom_eq_filter, List.filter_eq_self]
  intro position member
  refine decide_eq_true ?_
  rcases List.mem_append.mp member with ahead | behind
  · have bounds := List.mem_range'_1.mp ahead
    omega
  · exact Nat.lt_of_lt_of_le (List.mem_range.mp behind) inside

theorem ClaimBoard.mark_claimed {b : ClaimBoard} {index : UInt32}
    (taken : b.claimed index.toNat = true) : b.mark index = b := by
  have kept : b.claims.setIfInBounds index.toNat true = b.claims := by
    apply Array.ext (by simp)
    intro i _ inside
    rw [Array.getElem_setIfInBounds]
    split
    · next same =>
      subst same
      simpa [claimed, inside] using taken.symm
    · rfl
  rw [mark, kept]

/-- The entries of a round, in its order. -/
theorem filterMap_roundFrom (listing : List UInt32) (start : Nat) :
    ((roundFrom start listing.length).filterMap fun position => listing[position]?) =
      listing.drop start ++ listing.take start := by
  have found : (List.range listing.length).map (fun position => listing[position]?) =
      listing.map some := by
    apply List.ext_getElem (by simp)
    intro i _ inside
    have within : i < listing.length := by simpa using inside
    simp [within]
  have round : (roundFrom start listing.length).map (fun position => listing[position]?) =
      (listing.drop start ++ listing.take start).map some := by
    rw [roundFrom, List.map_append, List.map_drop, List.map_take, found, List.map_append,
      List.map_drop, List.map_take]
  have same := congrArg (List.filterMap id) round
  rwa [List.filterMap_map, List.filterMap_map, Function.id_comp, Function.id_comp,
    List.filterMap_some] at same

theorem Recorder.Linked.nodup_round {r : Recorder} (h : r.Linked) (start : Nat) :
    (r.journal.entries.drop start ++ r.journal.entries.take start).Nodup :=
  (perm_drop_append_take r.journal.entries start).nodup_iff.mpr h.listed.nodup

/-- Where nothing is listed, no start is asked for. -/
theorem Recorder.route_of_unlisted {r : Recorder} {profile : Profile}
    (readable : r.readable profile = .ok ()) (unlisted : r.journal.cursor = 0) (board : ClaimBoard)
    (worker : UInt64) : r.route profile board worker = .ok [] := by
  simp [route, readable, unlisted, bind, Except.bind, pure, Except.pure]

/-- Where there is a listing, the route is that of the start, if one is given. -/
theorem Recorder.route_of_listed {r : Recorder} {profile : Profile}
    (readable : r.readable profile = .ok ()) (listed : r.journal.cursor ≠ 0) (board : ClaimBoard)
    (worker : UInt64) :
    r.route profile board worker =
      (board.offset profile worker r.journal.cursor).map
        fun start => roundFrom start.toNat r.journal.length := by
  cases given : board.offset profile worker r.journal.cursor <;>
    simp [route, readable, listed, given, bind, Except.bind, pure, Except.pure, Except.map]

/-- A worker that is given a start goes round the listing from there. -/
theorem Recorder.Linked.route_eq {r : Recorder} (h : r.Linked) {profile : Profile}
    {board : ClaimBoard} {worker start : UInt64} (readable : r.readable profile = .ok ())
    (offset : board.offset profile worker r.journal.cursor = .ok start) :
    r.route profile board worker = .ok (roundFrom start.toNat r.journal.entries.length) := by
  by_cases unlisted : r.journal.cursor = 0
  · rw [route_of_unlisted readable unlisted, Journal.entries_of_unreserved unlisted]
    simp [roundFrom]
  · rw [route_of_listed readable unlisted, offset, h.length_entries]
    rfl

/-- A worker is refused, or goes round the listing from some start. -/
theorem Recorder.Linked.route_cases {r : Recorder} (h : r.Linked) (profile : Profile)
    (board : ClaimBoard) (worker : UInt64) :
    (∃ fault, r.route profile board worker = .error fault) ∨
      ∃ start : Nat,
        r.route profile board worker = .ok (roundFrom start r.journal.entries.length) := by
  cases readable : r.readable profile with
  | error fault =>
      refine Or.inl ⟨fault, ?_⟩
      simp [Recorder.route, readable, bind, Except.bind]
  | ok _ =>
      by_cases unlisted : r.journal.cursor = 0
      · refine Or.inr ⟨0, ?_⟩
        rw [route_of_unlisted readable unlisted, Journal.entries_of_unreserved unlisted]
        rfl
      · cases offset : board.offset profile worker r.journal.cursor with
        | error fault =>
            refine Or.inl ⟨fault, ?_⟩
            rw [route_of_listed readable unlisted, offset]
            rfl
        | ok start => exact Or.inr ⟨start.toNat, h.route_eq readable offset⟩

/-- A worker within range whose offset fits in a word goes through every position of the listing. -/
theorem Recorder.Linked.route {r : Recorder} (h : r.Linked) {profile : Profile} {board : ClaimBoard}
    {worker : UInt64} (readable : r.readable profile = .ok ()) (numbered : worker < board.workers)
    (fits : profile.checks = true → r.journal.entries.length * worker.toNat < UInt64.size) :
    ∃ positions, r.route profile board worker = .ok positions ∧
      ∀ position < r.journal.entries.length, position ∈ positions := by
  have share : board.offset profile worker r.journal.cursor =
      .ok (r.journal.cursor * worker / board.workers) := by
    rw [h.length_entries] at fits
    exact ClaimBoard.offset_eq_ok_iff.mpr ⟨fun checks => ⟨numbered, fits checks⟩, rfl⟩
  exact ⟨_, h.route_eq readable share, fun position inside => mem_roundFrom.mpr inside⟩

end Evacuation
