import Evacuation.Proofs.Recorder.Winners
import Evacuation.Recorder.Walk

/-!
# Operations that come to the same in every profile

A checking profile stops an operation where a contract is broken; where none is, and in the profiles
that check nothing, the operation takes one and the same course.  `Uniform` says so of an operation,
and is kept when operations are put together.
-/

namespace Evacuation

def breaks {α : Type} : Except Fault α → Bool
  | .error fault => fault.isContract
  | .ok _ => false

/-- What an operation comes to is the same in each profile, as long as no broken contract stops it. -/
structure Uniform {ω : Type} (broken : ω → Bool) (run : Profile → ω) : Prop where
  release_eq : broken (run .debug) = false → run .release = run .debug
  plain_eq : run .plain = run .release

namespace Uniform

variable {α β : Type} {broken : α → Bool} {lost : β → Bool}

/-- What no profile has a say in is the same in each. -/
theorem const (broken : α → Bool) (a : α) : Uniform broken fun _ => a :=
  ⟨fun _ => rfl, rfl⟩

/-- A contract that is checked before an operation leaves it uniform. -/
theorem check {condition : Bool} {stopped : α} {run : Profile → α} (broke : broken stopped = true)
    (rest : Uniform broken run) :
    Uniform broken fun p => if p.checks && condition then stopped else run p := by
  refine ⟨?_, ?_⟩
  · intro unbroken
    cases condition with
    | true =>
        have contrary : broken stopped = false := unbroken
        rw [broke] at contrary
        cases contrary
    | false => exact rest.release_eq unbroken
  · exact rest.plain_eq

/-- An operation that goes on from what another came to is uniform if both are, and if it does not
hide the contract that the first one broke. -/
theorem bind {first : Profile → α} (next : α → Profile → β) (begins : Uniform broken first)
    (goesOn : ∀ a, Uniform lost (next a))
    (shows : ∀ a p, broken a = true → lost (next a p) = true) :
    Uniform lost fun p => next (first p) p := by
  refine ⟨?_, ?_⟩
  · intro unbroken
    have early : broken (first .debug) = false := by
      cases broke : broken (first .debug) with
      | true =>
          have contrary := shows _ .debug broke
          rw [unbroken] at contrary
          cases contrary
      | false => rfl
    rw [begins.release_eq early]
    exact (goesOn _).release_eq unbroken
  · rw [begins.plain_eq]
    exact (goesOn _).plain_eq

theorem map {first : Profile → α} (change : α → β) (begins : Uniform broken first)
    (shows : ∀ a, broken a = true → lost (change a) = true) :
    Uniform lost fun p => change (first p) :=
  begins.bind (fun a _ => change a) (fun a => const lost (change a)) fun a _ => shows a

/-- What goes on from the answer of a uniform operation, and faults where it faults, is uniform. -/
theorem bindExcept {ε δ : Type} {first : Profile → Except Fault ε}
    {next : ε → Profile → Except Fault δ} (begins : Uniform breaks first)
    (goesOn : ∀ a, Uniform breaks (next a)) :
    Uniform breaks fun p => first p >>= fun a => next a p := by
  refine begins.bind (fun result p => result >>= fun a => next a p) ?_ ?_
  · rintro (fault | a)
    · exact const _ _
    · exact goesOn a
  · rintro (fault | a) _ broke
    · exact broke
    · cases broke

end Uniform

theorem breaks_map {α β : Type} (change : α → β) (result : Except Fault α) :
    breaks (result.map change) = breaks result := by
  cases result <;> rfl

namespace Journal

theorem store_uniform (j : Journal) (slot : UInt64) (value : UInt32) :
    Uniform (breaks ·.1) fun p => j.store p slot value := by
  by_cases inside : slot.toNat < j.slots.size
  · simp only [store, inside, ↓reduceIte]
    exact .const _ _
  · refine ⟨?_, rfl⟩
    intro unbroken
    simp [store, inside, Profile.checks, breaks, Fault.isContract] at unbroken

theorem append_uniform (j : Journal) (value : UInt32) :
    Uniform (breaks ·.1) fun p => j.append p value :=
  (j.reserve.2.store_uniform j.reserve.1 value).map
    (fun stored => (stored.1.map fun () => j.reserve.1, stored.2))
    fun stored broke => (breaks_map _ stored.1).trans broke

end Journal

namespace ClaimBoard

theorem product_uniform (a b : UInt64) : Uniform breaks fun p => product p a b :=
  Uniform.check rfl (.const _ _)

theorem offset_uniform (b : ClaimBoard) (worker length : UInt64) :
    Uniform breaks fun p => b.offset p worker length := by
  refine Uniform.check rfl ((product_uniform length worker).bindExcept fun share => ?_)
  exact .const _ _

end ClaimBoard

theorem Totals.openPause_uniform (t : Totals) : Uniform (breaks ·.1) fun p => t.openPause p :=
  Uniform.check rfl (.const _ _)

namespace Recorder

variable {τ : Type} [Layout τ]

theorem claim_uniform (r : Recorder) (index : UInt32) :
    Uniform (breaks ·.1) fun p => r.claim p index :=
  Uniform.check rfl (.const _ _)

theorem store_uniform (r : Recorder) (slot : UInt64) (index : UInt32) :
    Uniform (breaks ·.1) fun p => r.store p slot index :=
  (r.journal.store_uniform slot index).map (fun stored => (stored.1, { r with journal := stored.2 }))
    fun _ broke => broke

/-- A recording reports the contract that its claim broke, or its store. -/
theorem unbroken_of_record {p : Profile} {r : Recorder} {table : Table τ} {index : UInt32}
    (unbroken : breaks (r.record p table index).result = false) :
    breaks (r.claim p index).1 = false ∧
      ∀ won, r.claim p index = (.ok true, won) →
        breaks (won.reserve.2.store p won.reserve.1 index).1 = false := by
  unfold record at unbroken
  rcases claimed : r.claim p index with ⟨_ | _ | _, later⟩
  · rw [claimed] at unbroken
    exact ⟨unbroken, nofun⟩
  · exact ⟨rfl, nofun⟩
  · refine ⟨rfl, ?_⟩
    rintro won same
    cases same
    rw [claimed] at unbroken
    rcases stored : later.reserve.2.store p later.reserve.1 index with ⟨_ | _, _⟩
    · simp only [stored] at unbroken
      exact unbroken
    · rfl

/-- A recording depends on the profile through its claim and its store. -/
theorem record_congr {p q : Profile} {r : Recorder} {table : Table τ} {index : UInt32}
    (claimed : r.claim p index = r.claim q index)
    (stored : ∀ won, r.claim q index = (.ok true, won) →
      won.reserve.2.store p won.reserve.1 index = won.reserve.2.store q won.reserve.1 index) :
    r.record p table index = r.record q table index := by
  unfold record
  rw [claimed]
  rcases same : r.claim q index with ⟨_ | _ | _, won⟩
  · rfl
  · rfl
  · simp only [stored won same]

theorem record_uniform (r : Recorder) (table : Table τ) (index : UInt32) :
    Uniform (breaks ·.result) fun p => r.record p table index := by
  refine ⟨?_, ?_⟩
  · intro unbroken
    obtain ⟨claim, store⟩ := unbroken_of_record unbroken
    refine record_congr ((r.claim_uniform index).release_eq claim) ?_
    intro won claimed
    exact (won.reserve.2.store_uniform won.reserve.1 index).release_eq (store won claimed)
  · refine record_congr (r.claim_uniform index).plain_eq ?_
    intro won _
    exact (won.reserve.2.store_uniform won.reserve.1 index).plain_eq

/-! ## Series -/

/-- A series reports a broken contract through the fault that ended it. -/
theorem breaks_tally_map {σ : Type} (o : Outcome σ Series) (won : Bool) (events : List Event) :
    breaks ((o.map fun series => { series with wins := won :: series.wins }).after
      events).tally.result = breaks o.tally.result := by
  rcases o with ⟨fault | ⟨wins, _ | fault⟩, state, later⟩ <;> rfl

theorem recordAll_uniform (r : Recorder) (table : Table τ) (indices : List UInt32) :
    Uniform (breaks ·.tally.result) fun p => r.recordAll p table indices := by
  induction indices generalizing r table with
  | nil => exact ⟨fun _ => rfl, rfl⟩
  | cons index rest ih =>
      have single := r.record_uniform table index
      refine ⟨?_, ?_⟩
      · intro unbroken
        rcases first : r.record .debug table index with ⟨fault | won, state, events⟩
        · rw [recordAll_of_error first] at unbroken
          have same := single.release_eq ((congrArg (breaks ·.result) first).trans unbroken)
          rw [recordAll_of_error first, recordAll_of_error (same.trans first)]
        · rw [recordAll_of_ok first, breaks_tally_map] at unbroken
          have same := single.release_eq (congrArg (breaks ·.result) first)
          rw [recordAll_of_ok first, recordAll_of_ok (same.trans first),
            (ih state.1 state.2).release_eq unbroken]
      · rcases first : r.record .release table index with ⟨fault | won, state, events⟩
        · rw [recordAll_of_error first, recordAll_of_error (single.plain_eq.trans first)]
        · rw [recordAll_of_ok first, recordAll_of_ok (single.plain_eq.trans first),
            (ih state.1 state.2).plain_eq]

theorem recordRange_uniform (r : Recorder) (table : Table τ) (first limit : UInt32) (stride : Nat) :
    Uniform (breaks ·.result) fun p => r.recordRange p table first limit stride := by
  have series := r.recordAll_uniform table (progression first limit stride)
  simp only [recordRange_eq]
  exact series.map Outcome.tally fun _ broke => broke

/-! ## The calls around a recording -/

theorem beginPause_uniform (r : Recorder) (offered requested : UInt32) (totals : Totals) :
    Uniform (breaks ·.result) fun p => r.beginPause p offered requested totals := by
  refine Uniform.check rfl (Uniform.check rfl ?_)
  refine ⟨?_, rfl⟩
  intro unbroken
  rcases opened : totals.openPause .debug with ⟨fault | pauseId, counted⟩
  · rw [opened] at unbroken
    have same := totals.openPause_uniform.release_eq ((congrArg (breaks ·.1) opened).trans unbroken)
    simp only [opened, same]
  · have same := totals.openPause_uniform.release_eq (congrArg (breaks ·.1) opened)
    simp only [opened, same]

theorem sealPause_uniform (r : Recorder) (nanos : UInt64) (totals : Totals) :
    Uniform (breaks ·.result) fun p => r.sealPause p nanos totals :=
  Uniform.check rfl (.const _ _)

theorem readable_uniform (r : Recorder) : Uniform breaks fun p => r.readable p :=
  Uniform.check rfl (.const _ _)

theorem count_uniform (r : Recorder) : Uniform breaks fun p => r.count p :=
  r.readable_uniform.bindExcept fun _ => .const _ _

theorem anyFailed_uniform (r : Recorder) : Uniform breaks fun p => r.anyFailed p :=
  r.count_uniform.bindExcept fun _ => .const _ _

theorem contains_uniform (r : Recorder) (index : UInt32) :
    Uniform breaks fun p => r.contains p index :=
  r.readable_uniform.bindExcept fun _ => .const _ _

theorem listing_uniform (r : Recorder) : Uniform breaks fun p => r.listing p :=
  r.readable_uniform.bindExcept fun _ => .const _ _

theorem route_uniform (r : Recorder) (board : ClaimBoard) (worker : UInt64) :
    Uniform breaks fun p => r.route p board worker := by
  refine r.readable_uniform.bindExcept fun _ => ?_
  by_cases empty : r.journal.cursor = 0
  · simp only [empty, ↓reduceIte]
    exact .const _ _
  · simp only [empty, ↓reduceIte]
    exact (board.offset_uniform worker r.journal.cursor).bindExcept fun _ => .const _ _

theorem walk_uniform {σ : Type} (r : Recorder) (board : ClaimBoard) (worker : UInt64)
    (visit : Visitor σ) (state : σ) :
    Uniform (breaks ·.result) fun p => r.walk p board worker visit state := by
  have routed := r.route_uniform board worker
  refine ⟨?_, ?_⟩
  · intro unbroken
    unfold walk at unbroken ⊢
    rcases positions : r.route .debug board worker with fault | positions
    · rw [positions] at unbroken
      rw [routed.release_eq ((congrArg breaks positions).trans unbroken), positions]
    · rw [routed.release_eq (congrArg breaks positions), positions]
  · unfold walk
    simp only [routed.plain_eq]

end Recorder

end Evacuation
