import BitRouter.Admission.Tally

/-!
# The amounts of a publication are charges

What `calculate` takes off the counters is what settling the steps takes off
the loads of the custody. So under the invariant the counters cover it, and
`calculate` succeeds for both outcomes (`Kept.calculate_ok`).
-/

namespace BitRouter.Admission

open Tenancy

/-! ## Charges of one step -/

section Shares

variable {s : State} {o : Held} {p : TenantId → Bool} {b : Bool} {step : Step}

/-- A step without an owner has no amounts. -/
theorem amounts_of_unowned (h : step.owner = none) :
    s.slots step = 0 ∧ s.leftover b step = 0 ∧ s.freed b step = 0
      ∧ step.moved b = 0 := by
  have hgone := Tally.gone_of_unowned (s := s) h
  refine ⟨by simp [State.slots, hgone], by simp [State.leftover, hgone],
    by simp [State.freed, h], ?_⟩
  unfold Step.moved Step.opening
  rw [h]
  simp

/-- **Settling one step** takes the slots, the completion and the uncovered
potential of `calculate` off its charge, and no repair row. -/
theorem shares_of_step (hs : (custody s o).Sound)
    (hclaim : step.owner.isSome → ∃ live, (custody s o).Claimed step live) :
    let c := custody s o
    c.claimShare p .active step = (if p step.key.tenant then s.slots step else 0)
      ∧ c.settledShare b p .active step = 0
      ∧ (c.settledShare b p .uncovered step : ℤ)
          + (if p step.key.tenant then s.leftover b step else 0 : ℕ)
        = c.claimShare p .uncovered step
          + (if p step.key.tenant then step.moved b else 0)
      ∧ c.settledShare b p .live step
          + (if p step.key.tenant then s.freed b step else 0)
        = c.claimShare p .live step
      ∧ c.settledShare b p .repair step = c.claimShare p .repair step := by
  cases howner : step.owner with
  | none =>
    obtain ⟨hslots, hleft, hfreed, hmoved⟩ := amounts_of_unowned (s := s) (b := b)
      howner
    simp [Custody.claimShare, Custody.settledShare, howner, hslots, hleft, hfreed, hmoved]
  | some id =>
    obtain ⟨live, hlive⟩ := hclaim (by rw [howner]; rfl)
    have hgone : s.gone step = live.dropped := Tally.gone_of_claimed hlive
    have hentry := hlive.entry
    have hundone : ((custody s o).completions live.owner).done = false := hlive.undone
    have hrepair : live.dropped = true → live.repair = false := fun hd =>
      (hs.dropped step.key live hentry hd).2
    by_cases hp : p step.key.tenant = true
    · simp only [Custody.claimShare, Custody.settledShare, howner, hentry, hp, Custody.entryShare,
        hundone, if_true, Bool.true_and, State.slots, State.leftover, State.freed, hgone,
        Step.ends, Step.moved, Step.opening, settleEntry, Live.share, hlive.covered,
        Option.isSome_some, Bool.not_false]
      cases hd : live.dropped with
      | true =>
        rw [hrepair hd]
        cases b <;> cases step.terminal <;> cases step.before <;> cases step.after <;> simp
      | false =>
        cases b <;> cases step.terminal <;> cases step.before <;> cases step.after <;> simp
    · simp [Custody.claimShare, Custody.settledShare, howner, hentry, hp, Custody.entryShare]

/-- **Settling all steps**, kind by kind. -/
theorem shares_of_steps (hs : (custody s o).Sound) {steps : List Step}
    (hclaims : (custody s o).Claims steps) :
    let c := custody s o
    (steps.map (c.claimShare p .active)).sum = stepCount p s.slots steps
      ∧ (steps.map (c.settledShare b p .active)).sum = 0
      ∧ ((steps.map (c.settledShare b p .uncovered)).sum : ℤ)
          + stepCount p (s.leftover b) steps
        = (steps.map (c.claimShare p .uncovered)).sum + stepSum p (Step.moved b) steps
      ∧ (steps.map (c.settledShare b p .live)).sum
          + stepCount p (s.freed b) steps
        = (steps.map (c.claimShare p .live)).sum
      ∧ (steps.map (c.settledShare b p .repair)).sum
        = (steps.map (c.claimShare p .repair)).sum := by
  induction steps with
  | nil => simp
  | cons step steps ih =>
    obtain ⟨hclaim, hclaims'⟩ := List.forall_mem_cons.mp hclaims
    obtain ⟨h1, h2, h3, h4, h5⟩ := shares_of_step (p := p) (b := b) hs hclaim
    obtain ⟨g1, g2, g3, g4, g5⟩ := ih hclaims'
    simp only [List.map_cons, List.sum_cons, stepCount_cons, stepSum_cons]
    refine ⟨by omega, by omega, ?_, by omega, by omega⟩
    push_cast at h3 g3 ⊢
    omega

end Shares

/-! ## The loads of a settled custody -/

/-- The custody once the outcome is known. -/
def Custody.settled (c : Custody) (rollback : Bool) (p : Publication) : Custody :=
  p.steps.foldl (Custody.settle rollback) c

theorem Custody.load_mono {c : Custody} {p q : TenantId → Bool} {κ : Kind}
    (h : ∀ t, p t = true → q t = true) : c.load p κ ≤ c.load q κ := by
  refine Nat.add_le_add (List.sum_le_sum (fun l _ => ?_)) (entryTotal_le (fun k live _ => ?_))
  · unfold Custody.leaseShare
    split
    · next hp => rw [if_pos (h _ hp)]
    · exact Nat.zero_le _
  · unfold Custody.entryShare
    split
    · next hp => rw [if_pos (h _ hp)]
    · exact Nat.zero_le _

section Loads

variable {s : State} {o : Held} {p : Publication} {b : Bool} {q : TenantId → Bool}

/-- **What settling a publication does to the loads.** -/
theorem Prepared.loads (h : Prepared s o p) (hs : (custody s o).Sound) :
    let c := custody s o
    let c' := c.settled b p
    c'.load q .active + stepCount q s.slots p.steps = c.load q .active
      ∧ (c'.load q .uncovered : ℤ) + stepCount q (s.leftover b) p.steps
        = c.load q .uncovered + stepSum q (Step.moved b) p.steps
      ∧ c'.load q .live + stepCount q (s.freed b) p.steps = c.load q .live
      ∧ c'.load q .repair = c.load q .repair := by
  obtain ⟨h1, h2, h3, h4, h5⟩ := shares_of_steps (p := q) (b := b) hs h.claims
  have hload : ∀ κ, ((custody s o).settled b p).load q κ
      + (p.steps.map ((custody s o).claimShare q κ)).sum
      = (custody s o).load q κ
        + (p.steps.map ((custody s o).settledShare b q κ)).sum :=
    fun κ => hs.load_settleAll h.keys h.claims
  have a1 := hload .active
  have a2 := hload .uncovered
  have a3 := hload .live
  have a4 := hload .repair
  exact ⟨by omega, by omega, by omega, by omega⟩

theorem Prepared.sound_settled (h : Prepared s o p) (hs : (custody s o).Sound) :
    ((custody s o).settled b p).Sound := hs.settleAll h.keys h.claims

theorem settled_repairs {c : Custody} : (c.settled b p).repairs = c.repairs := by
  unfold Custody.settled
  generalize p.steps = steps
  induction steps generalizing c with
  | nil => rfl
  | cons step steps ih => exact ih.trans (Custody.settle_repairs step)

end Loads

/-! ## The sums of a publication -/

namespace Step

theorem recorded_true : recorded true = fun _ => 0 := rfl

theorem recorded_false : recorded false = durable := rfl

theorem moved_true : moved true = fun _ => 0 := rfl

theorem moved_false : moved false = opening := rfl

theorem stored_true : stored true = fun _ => 0 := rfl

end Step

theorem stepSum_zero {q : TenantId → Bool} {steps : List Step} :
    stepSum q (fun _ => 0) steps = 0 := stepSum_eq_zero (fun _ _ _ => rfl)

variable {t : TenantChange}

section Prepared

variable {s : State} {o : Held} {p : Publication} {b : Bool}

section

variable (h : Prepared s o p)

include h

theorem Prepared.durable_eq (ht : t ∈ p.tenants) :
    (if b then 0 else t.durable)
      = stepSum (only t.tenant) (Step.recorded b) p.steps := by
  cases b with
  | true => rw [Step.recorded_true, stepSum_zero]; rfl
  | false => rw [Step.recorded_false]; exact h.durable t ht

theorem Prepared.uncovered_eq (ht : t ∈ p.tenants) :
    (if b then 0 else t.uncovered)
      = stepSum (only t.tenant) (Step.moved b) p.steps := by
  cases b with
  | true => rw [Step.moved_true, stepSum_zero]; rfl
  | false => rw [Step.moved_false]; exact h.uncovered t ht

theorem Prepared.untouched {u : TenantId} (hu : u ∉ p.tenants.map TenantChange.tenant) :
    ∀ step ∈ p.steps, only u step.key.tenant = true → step.owner = none := by
  intro step hstep htenant
  cases howner : step.owner with
  | none => rfl
  | some id =>
    have hmem := h.touched step hstep (Or.inl (by rw [howner]; rfl))
    rw [of_decide_eq_true htenant] at hmem
    exact absurd hmem hu

theorem Prepared.cached_adjust {profile : Profile} (hb : Bounded s profile)
    (ht : t ∈ p.tenants) {n : ℕ} (hn : (s.counts t.tenant).unknown = some n) :
    0 ≤ (n : ℤ) + stepSum (only t.tenant) (Step.recorded b) p.steps
      ∧ (n : ℤ) + stepSum (only t.tenant) (Step.recorded b) p.steps < 2 ^ 64 := by
  rw [← h.durable_eq ht]
  cases b with
  | true =>
    have hlt := hb.cached _ n hn
    rw [if_pos rfl]
    omega
  | false => exact h.cached t ht n hn

theorem Prepared.unknown_adjust {profile : Profile} (hb : Bounded s profile) :
    0 ≤ (s.receipts.totals.unknown : ℤ) + stepSum everyone (Step.recorded b) p.steps
      ∧ (s.receipts.totals.unknown : ℤ) + stepSum everyone (Step.recorded b) p.steps
        < 2 ^ 64 := by
  cases b with
  | true =>
    have hlt := hb.unknown
    rw [Step.recorded_true, stepSum_zero]
    omega
  | false => exact h.unknown

theorem Prepared.bytes_fit :
    s.receipts.totals.bytes + (p.steps.map (Step.stored b)).sum < 2 ^ 64 := by
  cases b with
  | true =>
    have hbytes := h.bytes
    rw [Step.stored_true, List.map_const', List.sum_replicate]
    rw [show p.steps.length • 0 = 0 from Nat.mul_zero _]
    omega
  | false => exact h.bytes

end

end Prepared

theorem adjust_ok {value : ℕ} {delta : ℤ} (hlow : 0 ≤ value + delta)
    (hhigh : value + delta < 2 ^ 64) : adjust value delta = .ok (value + delta).toNat := by
  unfold adjust
  rw [if_pos ⟨hlow, hhigh⟩]

theorem adjust_eq_ok {value n : ℕ} {delta : ℤ} (h : adjust value delta = .ok n) :
    0 ≤ value + delta ∧ value + delta < 2 ^ 64 ∧ n = (value + delta).toNat := by
  unfold adjust at h
  split at h
  · next hcond => exact ⟨hcond.1, hcond.2, (Except.ok.inj h).symm⟩
  · exact absurd h (by simp)

end BitRouter.Admission
