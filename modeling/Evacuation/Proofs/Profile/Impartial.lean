import Evacuation.ClaimBoard.Request
import Evacuation.Journal.Request
import Evacuation.Proofs.Profile.Unchecked
import Evacuation.Proofs.Profile.Uniform
import Evacuation.Proofs.Transcript
import Evacuation.RegionSet.Request
import Evacuation.Table.Request

/-!
# Services in several profiles

A service that takes a profile is compared with itself in other profiles, entry by entry over whole
transcripts.  A checked run and an unchecked one agree until a contract is broken, and the profile that
emits nothing agrees in everything else with the one that checks nothing.  Sets, journals, boards and
tables serve their requests so.
-/

namespace Evacuation

/-- What a service keeps to in whichever profile it runs.  Faults are read off answers by `fault?`;
answers lose by `mute` what only a tracing profile has; foreign faults are not the service's own. -/
structure Impartial {σ ρ α : Type} (serve : Profile → σ → ρ → α × σ) (fault? : α → Option Fault)
    (mute : α → α) (foreign : Fault → Prop) : Prop where
  /-- Checked and unchecked runs agree up to the first broken contract. -/
  release_prefix : ∀ s requests,
    (transcript (serve .debug) s requests).takeWhile
      (fun entry => !(fault? entry.answer).any Fault.isContract) <+:
        transcript (serve .release) s requests
  /-- Where no contract is broken they agree altogether. -/
  release_eq : ∀ s requests,
    (∀ entry ∈ transcript (serve .debug) s requests,
      (fault? entry.answer).any Fault.isContract = false) →
    transcript (serve .release) s requests = transcript (serve .debug) s requests
  /-- Without events, the unchecked profiles agree in every run. -/
  plain_eq : ∀ s requests,
    transcript (serve .plain) s requests =
      (transcript (serve .release) s requests).map (Entry.mapAnswer mute)
  /-- Only a checked run reports a broken contract. -/
  unchecked : ∀ p, p.checks = false → ∀ s requests, ∀ entry ∈ transcript (serve p) s requests,
    ∀ fault, fault? entry.answer = some fault → fault.isContract = true → foreign fault

namespace Impartial

variable {σ ρ α : Type} {serve : Profile → σ → ρ → α × σ} {fault? : α → Option Fault}
  {mute : α → α} {foreign : Fault → Prop}

/-- A service is impartial if each single request is served so. -/
theorem of_step
    (release : ∀ s request, (fault? (serve .debug s request).1).any Fault.isContract = false →
      serve .release s request = serve .debug s request)
    (plain : ∀ s request,
      serve .plain s request = (mute (serve .release s request).1, (serve .release s request).2))
    (only : ∀ p, p.checks = false → ∀ s request fault, fault? (serve p s request).1 = some fault →
      fault.isContract = true → foreign fault) :
    Impartial serve fault? mute foreign where
  release_prefix := Transcript.takeWhile_prefix (fun a => (fault? a).any Fault.isContract) release
  release_eq := fun _ _ unbroken =>
    Transcript.eq_of_unstopped (fun a => (fault? a).any Fault.isContract) release unbroken
  plain_eq := Transcript.eq_map plain
  unchecked := by
    intro p checks s requests entry member fault faulted
    have served := congrArg Entry.answer (Transcript.eq_of_mem member)
    exact only p checks entry.before entry.request fault ((congrArg fault? served).symm.trans faulted)

/-- A service that no profile has a say in, and that reports no broken contract, is impartial. -/
theorem of_const {serve : σ → ρ → α × σ}
    (only : ∀ s request fault, fault? (serve s request).1 = some fault →
      fault.isContract = true → foreign fault) :
    Impartial (fun _ => serve) fault? id foreign :=
  of_step (fun _ _ _ => rfl) (fun _ _ => rfl) fun _ _ => only

end Impartial

/-! ## Sets, journals, boards and tables -/

def faultOf {α : Type} : Except Fault α → Option Fault
  | .ok _ => none
  | .error fault => some fault

theorem eq_error_of_faultOf {α : Type} {result : Except Fault α} {fault : Fault}
    (faulted : faultOf result = some fault) : result = .error fault := by
  cases result with
  | error same => exact congrArg Except.error (Option.some.inj faulted)
  | ok a => cases faulted

theorem any_faultOf {α : Type} (result : Except Fault α) :
    (faultOf result).any Fault.isContract = breaks result := by
  cases result <;> rfl

theorem RegionSet.serve_blameless (s : RegionSet) (request : RegionSet.Request) :
    Blameless (fun _ => False) (s.serve request).1 := by
  cases request with
  | claim index => exact (s.claim_blameless index).map _
  | contains index => exact (s.contains_blameless index).map _
  | count => exact .ok _
  | capacity => exact .ok _
  | clear => exact .ok _
  | resize capacity => exact .ok _
  | members => exact .ok _
  | inspect => exact .ok _

theorem RegionSet.impartial :
    Impartial (fun _ : Profile => RegionSet.serve) faultOf id fun _ => False :=
  .of_const fun s request fault faulted =>
    s.serve_blameless request fault (eq_error_of_faultOf faulted)

theorem Journal.serve_uniform (j : Journal) (request : Journal.Request) :
    Uniform (breaks ·.1) fun p => j.serve p request := by
  cases request with
  | append value =>
      refine (j.append_uniform value).map
        (fun appended => (appended.1.map fun slot => Answer.number slot.toNat, appended.2)) ?_
      intro appended broke
      exact (breaks_map _ appended.1).trans broke
  | length => exact .const _ _
  | isEmpty => exact .const _ _
  | capacity => exact .const _ _
  | get position => exact .const _ _
  | entries => exact .const _ _
  | take n => exact .const _ _
  | clear => exact .const _ _
  | resize capacity => exact .const _ _
  | inspect => exact .const _ _

theorem Journal.serve_blameless {p : Profile} (unchecked : p.checks = false) (j : Journal)
    (request : Journal.Request) : Blameless (fun _ => False) (j.serve p request).1 := by
  cases request with
  | append value => exact ((j.reserve.2.store_blameless unchecked j.reserve.1 value).map _).map _
  | get position => exact (j.get?_blameless position).map _
  | length => exact .ok _
  | isEmpty => exact .ok _
  | capacity => exact .ok _
  | entries => exact .ok _
  | take n => exact .ok _
  | clear => exact .ok _
  | resize capacity => exact .ok _
  | inspect => exact .ok _

theorem ClaimBoard.serve_uniform (b : ClaimBoard) (request : ClaimBoard.Request) :
    Uniform (breaks ·.1) fun p => b.serve p request := by
  cases request with
  | offset worker length =>
      refine (b.offset_uniform worker length).map
        (fun start => (start.map fun start => Answer.number start.toNat, b)) ?_
      intro start broke
      exact (breaks_map _ start).trans broke
  | claim index => exact .const _ _
  | isClaimed index => exact .const _ _
  | workers => exact .const _ _
  | release => exact .const _ _
  | inspect => exact .const _ _

theorem ClaimBoard.serve_blameless {p : Profile} (unchecked : p.checks = false) (b : ClaimBoard)
    (request : ClaimBoard.Request) {foreign : Fault → Prop} :
    Blameless foreign (b.serve p request).1 := by
  cases request with
  | offset worker length => exact (b.offset_blameless unchecked worker length).map _
  | claim index => exact (b.claim_blameless index).map _
  | isClaimed index => exact (b.isClaimed_blameless index).map _
  | workers => exact .ok _
  | release => exact .ok _
  | inspect => exact .ok _

/-- A service on whose results a profile has a uniform say is impartial. -/
theorem Impartial.of_uniform {σ ρ : Type} {serve : Profile → σ → ρ → Except Fault Answer × σ}
    {foreign : Fault → Prop} (uniform : ∀ s request, Uniform (breaks ·.1) fun p => serve p s request)
    (blameless : ∀ p, p.checks = false → ∀ s request, Blameless foreign (serve p s request).1) :
    Impartial serve faultOf id foreign :=
  .of_step (fun s request unbroken =>
      (uniform s request).release_eq ((any_faultOf _).symm.trans unbroken))
    (fun s request => (uniform s request).plain_eq)
    fun p checks s request fault faulted =>
      blameless p checks s request fault (eq_error_of_faultOf faulted)

theorem Journal.impartial : Impartial Journal.serve faultOf id fun _ => False :=
  .of_uniform Journal.serve_uniform fun _ => Journal.serve_blameless

theorem ClaimBoard.impartial : Impartial ClaimBoard.serve faultOf id fun _ => False :=
  .of_uniform ClaimBoard.serve_uniform fun _ unchecked b request => b.serve_blameless unchecked request

variable {τ : Type} [Layout τ]

theorem Table.serve_blameless (t : Table τ) (request : Table.Request) :
    Blameless (Layout.Refuses τ) (t.serve request).1 := by
  cases request with
  | note index => exact (t.update_blameless index Region.note).map _
  | region index => exact (t.region_blameless index).map _
  | clearRegion index => exact (t.update_blameless index Region.clear).map _
  | inspect index => exact (t.region_blameless index).map _
  | clearAll => exact .ok _
  | failedRegions => exact .ok _
  | touched => exact .ok _
  | heapSize => exact .ok _
  | maxRegions => exact .ok _
  | commit n => exact .ok _

theorem Table.impartial (τ : Type) [Layout τ] :
    Impartial (fun _ : Profile => Table.serve (τ := τ)) faultOf id (Layout.Refuses τ) :=
  .of_const fun t request fault faulted =>
    t.serve_blameless request fault (eq_error_of_faultOf faulted)

end Evacuation
