import Evacuation.Proofs.Recorder.Winners
import Evacuation.Recorder.Walk

/-!
# What a profile that checks nothing never reports

The causes for which `Fault.isContract` holds are raised by checks alone.  In a profile without checks
such a fault can only be one that the layout of a table gave as its own reason for refusing an index.
-/

namespace Evacuation

def Layout.Refuses (τ : Type) [Layout τ] (fault : Fault) : Prop :=
  ∃ (layout : τ) (index : UInt32), Layout.place layout index = .error fault

/-- A result reports a broken contract only for a foreign reason. -/
def Blameless (foreign : Fault → Prop) {α : Type} (result : Except Fault α) : Prop :=
  ∀ fault, result = .error fault → fault.isContract = true → foreign fault

namespace Blameless

variable {foreign : Fault → Prop} {α β : Type}

theorem ok (a : α) : Blameless foreign (.ok a) := nofun

theorem error {fault : Fault} (harmless : fault.isContract = false) :
    Blameless foreign (.error fault : Except Fault α) := by
  intro same faulted contract
  cases faulted
  rw [harmless] at contract
  cases contract

/-- A fault keeps its reason, whatever the answer would have been. -/
theorem fault {fault : Fault} (h : Blameless foreign (.error fault : Except Fault α)) :
    Blameless foreign (.error fault : Except Fault β) := by
  intro same faulted contract
  cases faulted
  exact h fault rfl contract

theorem bind {first : Except Fault α} {next : α → Except Fault β} (h : Blameless foreign first)
    (goesOn : ∀ a, Blameless foreign (next a)) : Blameless foreign (first >>= next) := by
  cases first with
  | error fault => exact h.fault
  | ok a => exact goesOn a

theorem map {first : Except Fault α} (h : Blameless foreign first) (change : α → β) :
    Blameless foreign (first.map change) := by
  cases first with
  | error fault => exact h.fault
  | ok a => exact ok _

end Blameless

variable {foreign : Fault → Prop}

/-! ## Sets, journals and boards -/

namespace RegionSet

theorem load_blameless (s : RegionSet) (position : Nat) : Blameless foreign (s.load position) := by
  unfold load
  split
  · exact .ok _
  · exact .error rfl

theorem locate_blameless (s : RegionSet) (i : Nat) : Blameless foreign (s.locate i) := by
  unfold locate
  split
  · exact .ok _
  · exact .error rfl

theorem claim_blameless (s : RegionSet) (i : Nat) : Blameless foreign (s.claim i).1 := by
  unfold claim
  have locates : Blameless foreign (s.locate i) := s.locate_blameless i
  rcases located : s.locate i with fault | ⟨position, mask⟩
  · rw [located] at locates
    exact locates.fault
  · refine Blameless.map ?_ _
    have loads : Blameless foreign (s.load position) := s.load_blameless position
    unfold fetchOr
    rcases loaded : s.load position with fault | word
    · rw [loaded] at loads
      exact loads
    · exact .ok _

theorem contains_blameless (s : RegionSet) (i : Nat) : Blameless foreign (s.contains i) :=
  (s.locate_blameless i).bind fun located => (s.load_blameless located.1).bind fun _ => .ok _

end RegionSet

namespace Journal

variable {p : Profile}

theorem store_blameless (unchecked : p.checks = false) (j : Journal) (slot : UInt64)
    (value : UInt32) : Blameless foreign (j.store p slot value).1 := by
  unfold store
  split
  · exact .ok _
  · rw [unchecked]
    exact .error rfl

theorem get?_blameless (j : Journal) (position : Nat) : Blameless foreign (j.get? position) := by
  unfold get?
  split
  · split
    · exact .ok _
    · exact .error rfl
  · exact .ok _

end Journal

namespace ClaimBoard

theorem create_blameless (workers : UInt64) (size : UInt32) :
    Blameless foreign (create workers size) := by
  unfold create
  split
  · exact .ok _
  · exact .error rfl

theorem claim_blameless (b : ClaimBoard) (index : UInt32) : Blameless foreign (b.claim index).1 := by
  unfold claim
  split
  · exact .ok _
  · exact .error rfl

theorem isClaimed_blameless (b : ClaimBoard) (index : UInt32) :
    Blameless foreign (b.isClaimed index) := by
  unfold isClaimed
  split
  · exact .ok _
  · exact .error rfl

theorem offset_blameless {p : Profile} (unchecked : p.checks = false) (b : ClaimBoard)
    (worker length : UInt64) : Blameless foreign (b.offset p worker length) := by
  unfold offset product
  rw [unchecked]
  exact .ok _

end ClaimBoard

/-! ## Tables -/

namespace Heap

theorem region_blameless (h : Heap) (position : UInt32) : Blameless foreign (h.region position) := by
  unfold region
  split
  · exact .ok _
  · exact .error rfl

theorem update_blameless (h : Heap) (position : UInt32) (change : Region → Region) :
    Blameless foreign (h.update position change).1 := by
  unfold update
  split
  · exact .ok _
  · exact .error rfl

end Heap

namespace Table

variable {τ : Type} [Layout τ]

theorem region_blameless (t : Table τ) (index : UInt32) :
    Blameless (Layout.Refuses τ) (t.region index) :=
  Blameless.bind (fun _ refused _ => ⟨t.layout, index, refused⟩) fun place =>
    t.heap.region_blameless place

theorem update_blameless (t : Table τ) (index : UInt32) (change : Region → Region) :
    Blameless (Layout.Refuses τ) (t.update index change).1 := by
  unfold update
  rcases placed : Layout.place t.layout index with fault | place
  · intro _ faulted _
    exact ⟨t.layout, index, placed.trans (congrArg _ (Except.error.inj faulted))⟩
  · exact t.heap.update_blameless place change

end Table

/-! ## Recorders -/

namespace Recorder

variable {τ : Type} [Layout τ] {p : Profile}

theorem claim_blameless (unchecked : p.checks = false) (r : Recorder) (index : UInt32) :
    Blameless foreign (r.claim p index).1 := by
  unfold claim
  rw [unchecked]
  exact r.failed.claim_blameless index.toNat

theorem record_blameless (unchecked : p.checks = false) (r : Recorder) (table : Table τ)
    (index : UInt32) : Blameless (Layout.Refuses τ) (r.record p table index).result := by
  have claims : Blameless (Layout.Refuses τ) (r.claim p index).1 :=
    r.claim_blameless unchecked index
  unfold record
  rcases claimed : r.claim p index with ⟨fault | _ | _, won⟩
  · rw [claimed] at claims
    exact claims
  · exact .ok _
  · have stores : Blameless (Layout.Refuses τ) (won.reserve.2.store p won.reserve.1 index).1 :=
      won.reserve.2.journal.store_blameless unchecked won.reserve.1 index
    rcases stored : won.reserve.2.store p won.reserve.1 index with ⟨fault | _, listed⟩
    · rw [stored] at stores
      simp only [stored]
      exact stores.fault
    · simp only [stored]
      have tells : Blameless (Layout.Refuses τ) (table.note index).1 :=
        table.update_blameless index Region.note
      rcases told : table.note index with ⟨fault | _, _⟩
      · rw [told] at tells
        exact tells.fault
      · exact .ok _

theorem recordAll_blameless (unchecked : p.checks = false) (r : Recorder) (table : Table τ)
    (indices : List UInt32) :
    Blameless (Layout.Refuses τ) (r.recordAll p table indices).tally.result := by
  induction indices generalizing r table with
  | nil => exact .ok _
  | cons index rest ih =>
      have single := r.record_blameless unchecked table index
      rcases first : r.record p table index with ⟨fault | won, state, events⟩
      · rw [first] at single
        rw [recordAll_of_error first]
        exact single.fault
      · have others := ih state.1 state.2
        rw [recordAll_of_ok first]
        rcases later : state.1.recordAll p state.2 rest with ⟨fault | ⟨wins, _ | fault⟩, _, _⟩
        · rw [later] at others
          exact others.fault
        · exact .ok _
        · rw [later] at others
          exact others.fault

theorem beginPause_blameless (unchecked : p.checks = false) (r : Recorder)
    (offered requested : UInt32) (totals : Totals) :
    Blameless foreign (r.beginPause p offered requested totals).result := by
  unfold beginPause Totals.openPause
  rw [unchecked]
  exact .ok _

theorem sealPause_blameless (unchecked : p.checks = false) (r : Recorder) (nanos : UInt64)
    (totals : Totals) : Blameless foreign (r.sealPause p nanos totals).result := by
  unfold sealPause
  rw [unchecked]
  exact .ok _

theorem readable_blameless (unchecked : p.checks = false) (r : Recorder) :
    Blameless foreign (r.readable p) := by
  unfold readable
  rw [unchecked]
  exact .ok _

theorem contains_blameless (unchecked : p.checks = false) (r : Recorder) (index : UInt32) :
    Blameless foreign (r.contains p index) :=
  (r.readable_blameless unchecked).bind fun _ => r.failed.contains_blameless index.toNat

theorem count_blameless (unchecked : p.checks = false) (r : Recorder) :
    Blameless foreign (r.count p) :=
  (r.readable_blameless unchecked).bind fun _ => .ok _

theorem listing_blameless (unchecked : p.checks = false) (r : Recorder) :
    Blameless foreign (r.listing p) :=
  (r.readable_blameless unchecked).bind fun _ => .ok _

theorem route_blameless (unchecked : p.checks = false) (r : Recorder) (board : ClaimBoard)
    (worker : UInt64) : Blameless foreign (r.route p board worker) := by
  refine (r.readable_blameless unchecked).bind fun _ => ?_
  split
  · exact .ok _
  · exact (board.offset_blameless unchecked worker r.journal.cursor).bind fun _ => .ok _

theorem claimEntry_blameless (journal : Journal) (board : ClaimBoard) (position : Nat) :
    Blameless foreign (claimEntry journal board position).1 := by
  have reads : Blameless foreign (journal.get? position) := journal.get?_blameless position
  unfold claimEntry
  rcases read : journal.get? position with fault | _ | index
  · rw [read] at reads
    exact reads.fault
  · exact .ok _
  · exact (board.claim_blameless index).map _

theorem walkOver_blameless {σ : Type} {visit : Visitor σ}
    (visits : ∀ index state, Blameless foreign (visit index state).1) (journal : Journal)
    (positions : List Nat) (board : ClaimBoard) (state : σ) :
    Blameless foreign (walkOver journal visit positions board state).result := by
  induction positions generalizing board state with
  | nil => exact .ok _
  | cons position rest ih =>
      have claims : Blameless foreign (claimEntry journal board position).1 :=
        claimEntry_blameless journal board position
      unfold walkOver
      rcases claimed : claimEntry journal board position with ⟨fault | _ | index, later⟩
      · rw [claimed] at claims
        exact claims.fault
      · exact ih later state
      · have visiting := visits index state
        rcases visited : visit index state with ⟨fault | _, seen⟩
        · rw [visited] at visiting
          simp only [visited]
          exact visiting.fault
        · simp only [visited]
          exact ih later seen

theorem walk_blameless {σ : Type} (unchecked : p.checks = false) {visit : Visitor σ}
    (visits : ∀ index state, Blameless foreign (visit index state).1) (r : Recorder)
    (board : ClaimBoard) (worker : UInt64) (state : σ) :
    Blameless foreign (r.walk p board worker visit state).result := by
  have routes : Blameless foreign (r.route p board worker) :=
    r.route_blameless unchecked board worker
  unfold walk
  rcases routed : r.route p board worker with fault | positions
  · rw [routed] at routes
    exact routes.fault
  · exact walkOver_blameless visits r.journal positions board state

end Recorder

end Evacuation
