import BitRouter.Admission.Repairing

/-!
# What a publication comes to

`calculate` in closed form. Each step takes a number of slots, of completions
and of uncovered obligations off the counters, which depends on whether its
lease has been dropped since it was prepared; against the state it is computed
on these are sums over the steps (`Tally.after_all`), and where the counters
are as large as the sums nothing underflows (`Tally.count_all`).
-/

namespace BitRouter.Admission

open Tenancy
open Receipts (checkedAdd checkedSub rowOverhead)

/-! ## The amounts of one step -/

/-- Whether the lease behind the entry of a step has been dropped. -/
def State.gone (s : State) (step : Step) : Bool :=
  match step.owner, s.executions[step.key]? with
  | some _, some live => live.dropped
  | _, _ => false

namespace Step

/-- Whether a step completes its source. -/
def ends (rollback : Bool) (step : Step) : Bool := !rollback && step.terminal.isSome

/-- What a step adds to the durable obligations. -/
def recorded (rollback : Bool) (step : Step) : ℤ := if rollback then 0 else step.durable

/-- What a step does to the uncovered potential, its lease not dropped. -/
def moved (rollback : Bool) (step : Step) : ℤ := if rollback then 0 else step.opening

/-- The bytes a step adds. -/
def stored (rollback : Bool) (step : Step) : ℕ := if rollback then 0 else step.charge

end Step

namespace State

/-- The slots a step gives back. -/
def slots (s : State) (step : Step) : ℕ := (s.gone step).toNat

/-- The uncovered potential that goes with a dropped lease. -/
def leftover (s : State) (rollback : Bool) (step : Step) : ℕ :=
  (s.gone step && !step.ends rollback && !(if rollback then step.before else step.after)).toNat

/-- The completions a step releases. -/
def freed (s : State) (rollback : Bool) (step : Step) : ℕ :=
  (step.owner.isSome && (step.ends rollback || s.gone step)).toNat

end State

/-- The sum of a step's amount over the steps of the tenants of `p`. -/
def stepCount (p : TenantId → Bool) (f : Step → ℕ) (steps : List Step) : ℕ :=
  (steps.map (fun step => if p step.key.tenant then f step else 0)).sum

section Sums

variable {p : TenantId → Bool} {step : Step} {steps : List Step}

variable {f : Step → ℕ}

@[simp] theorem stepCount_nil : stepCount p f [] = 0 := rfl

@[simp] theorem stepCount_cons :
    stepCount p f (step :: steps)
      = (if p step.key.tenant then f step else 0) + stepCount p f steps := rfl

@[simp] theorem stepSum_nil {f : Step → ℤ} : stepSum p f [] = 0 := rfl

@[simp] theorem stepSum_cons {f : Step → ℤ} :
    stepSum p f (step :: steps)
      = (if p step.key.tenant then f step else 0) + stepSum p f steps := rfl

theorem stepCount_eq_zero (h : ∀ step ∈ steps, p step.key.tenant = true → f step = 0) :
    stepCount p f steps = 0 := by
  refine List.sum_eq_zero (fun x hx => ?_)
  obtain ⟨step, hstep, rfl⟩ := List.mem_map.mp hx
  split
  · next hp => exact h step hstep hp
  · rfl

theorem stepSum_eq_zero {f : Step → ℤ}
    (h : ∀ step ∈ steps, p step.key.tenant = true → f step = 0) : stepSum p f steps = 0 := by
  refine List.sum_eq_zero (fun x hx => ?_)
  obtain ⟨step, hstep, rfl⟩ := List.mem_map.mp hx
  split
  · next hp => exact h step hstep hp
  · rfl

end Sums

/-! ## One tenant of a list -/

/-- Change the entry of one tenant, in every list. -/
def atTenant (tenant : TenantId) (g : TenantChange → TenantChange) (ts : List TenantChange) :
    List TenantChange :=
  ts.map (fun c => if c.tenant = tenant then g c else c)

section OnTenant

variable {tenant : TenantId} {f : TenantChange → Option TenantChange}
  {g : TenantChange → TenantChange} {ts : List TenantChange}

theorem atTenant_of_notMem (h : tenant ∉ ts.map TenantChange.tenant) :
    atTenant tenant g ts = ts := by
  have hne : ∀ c ∈ ts, c.tenant ≠ tenant := by
    rintro c hc rfl
    exact h (List.mem_map_of_mem hc)
  conv_rhs => rw [← List.map_id ts]
  exact List.map_congr_left (fun c hc => if_neg (hne c hc))

theorem atTenant_id (h : ∀ c, g c = c) : atTenant tenant g ts = ts := by
  conv_rhs => rw [← List.map_id ts]
  refine List.map_congr_left (fun c _ => ?_)
  rw [h c]
  exact ite_self c

/-- **Changing the entry of a tenant that has one.** -/
theorem onTenant_eq (hnodup : (ts.map TenantChange.tenant).Nodup)
    (hmem : tenant ∈ ts.map TenantChange.tenant)
    (hf : ∀ c ∈ ts, c.tenant = tenant → f c = some (g c)) :
    onTenant tenant f ts = some (atTenant tenant g ts) := by
  induction ts with
  | nil => exact absurd hmem (by simp)
  | cons c ts ih =>
    obtain ⟨hnotin, hnodup'⟩ := List.nodup_cons.mp hnodup
    obtain ⟨hhead, htail⟩ := List.forall_mem_cons.mp hf
    unfold onTenant
    by_cases hc : c.tenant = tenant
    · rw [if_pos hc, hhead hc]
      have hrest := atTenant_of_notMem (g := g) (hc ▸ hnotin)
      unfold atTenant at hrest ⊢
      rw [List.map_cons, if_pos hc, hrest]
      rfl
    · have hmem' : tenant ∈ ts.map TenantChange.tenant := by
        rcases List.mem_cons.mp (List.map_cons ▸ hmem) with heq | hrest
        · exact absurd heq.symm hc
        · exact hrest
      rw [if_neg hc, ih hnodup' hmem' htail]
      unfold atTenant
      rw [List.map_cons, if_neg hc]
      rfl

theorem atTenant_tenants (hg : ∀ c, (g c).tenant = c.tenant) :
    (atTenant tenant g ts).map TenantChange.tenant = ts.map TenantChange.tenant := by
  unfold atTenant
  rw [List.map_map]
  refine List.map_congr_left (fun c _ => ?_)
  rw [Function.comp_apply]
  split
  · exact hg c
  · rfl

/-- What `onTenant` changes keeps every reading that its function keeps. -/
theorem onTenant_map {β : Type} {k : TenantChange → β} {ts' : List TenantChange}
    (hk : ∀ c c', f c = some c' → k c' = k c) (h : onTenant tenant f ts = some ts') :
    ts'.map k = ts.map k := by
  induction ts generalizing ts' with
  | nil => exact absurd h (by simp [onTenant])
  | cons c ts ih =>
    unfold onTenant at h
    split at h
    · obtain ⟨c', hc', rfl⟩ := Option.map_eq_some_iff.mp h
      rw [List.map_cons, List.map_cons, hk c c' hc']
    · obtain ⟨ts'', hts, rfl⟩ := Option.map_eq_some_iff.mp h
      rw [List.map_cons, List.map_cons, ih hts]

end OnTenant

/-! ## The tally after a step -/

variable {t' : Tally}

namespace Tally

/-- The tally with the amounts of one step. -/
def after (s : State) (rollback : Bool) (t : Tally) (step : Step) : Tally where
  tenants := atTenant step.key.tenant (fun c => { c with
    nextActive := c.nextActive - s.slots step
    nextUncovered := c.nextUncovered - s.leftover rollback step }) t.tenants
  active := t.active - s.slots step
  durable := t.durable + step.recorded rollback
  uncovered := t.uncovered + step.moved rollback - s.leftover rollback step
  release := t.release + s.freed rollback step
  bytes := t.bytes + step.stored rollback

variable {s : State} {o : Held} {b : Bool} {t : Tally} {step : Step} {live : Live}

theorem addedBytes_eq {bytes added : ℕ}
    (h : bytes + (if added = 0 then 0 else added + rowOverhead) < 2 ^ 64) :
    addedBytes bytes added = some (bytes + if added = 0 then 0 else added + rowOverhead) := by
  unfold addedBytes
  by_cases hadded : added = 0
  · rw [if_pos hadded] at h ⊢
    subst hadded
    rw [Receipts.checkedAdd_of_lt h]
    rfl
  · rw [if_neg hadded] at h ⊢
    rw [Receipts.checkedAdd_of_lt (by omega)]
    show (if added = 0 then _ else checkedAdd (bytes + added) rowOverhead) = _
    rw [if_neg hadded, Receipts.checkedAdd_of_lt (by omega), Nat.add_assoc]

/-- **A dropped lease gives back its slot**, and without a terminal its
reservation. -/
theorem drop_eq (hnodup : (t.tenants.map TenantChange.tenant).Nodup)
    (hmem : step.key.tenant ∈ t.tenants.map TenantChange.tenant) {terminal uncovered : Bool}
    (huncovered : uncovered = (!terminal && !(if b then step.before else step.after)))
    (hactive : 1 ≤ t.active) (hrelease : terminal = false → t.release + 1 < 2 ^ 64)
    (htenants : ∀ c ∈ t.tenants, c.tenant = step.key.tenant →
      1 ≤ c.nextActive ∧ uncovered.toNat ≤ c.nextUncovered) :
    t.drop step terminal b = some { t with
      tenants := atTenant step.key.tenant (fun c => { c with
        nextActive := c.nextActive - 1
        nextUncovered := c.nextUncovered - uncovered.toNat }) t.tenants
      active := t.active - 1
      uncovered := t.uncovered - uncovered.toNat
      release := t.release + (!terminal).toNat } := by
  have hslots : onTenant step.key.tenant
      (fun c => (checkedSub c.nextActive 1).map (fun n => { c with nextActive := n })) t.tenants
      = some (atTenant step.key.tenant (fun c => { c with nextActive := c.nextActive - 1 })
          t.tenants) :=
    onTenant_eq hnodup hmem (fun c hc htenant => by
      rw [Receipts.checkedSub_of_le (htenants c hc htenant).1]
      rfl)
  unfold drop
  rw [Receipts.checkedSub_of_le hactive]
  simp only [Option.bind_eq_bind, Option.bind_some, hslots]
  cases terminal with
  | true =>
    subst huncovered
    simp
  | false =>
    have hcond : (if b = true then !step.before else !step.after) = uncovered := by
      rw [huncovered]
      cases b <;> rfl
    simp only [Bool.false_eq_true, if_false, Receipts.checkedAdd_of_lt (hrelease rfl),
      Option.bind_some, hcond]
    cases uncovered with
    | false => simp
    | true =>
      have hnames : (atTenant step.key.tenant (fun c => { c with nextActive := c.nextActive - 1 })
          t.tenants).map TenantChange.tenant = t.tenants.map TenantChange.tenant :=
        atTenant_tenants (fun _ => rfl)
      have hless : onTenant step.key.tenant
          (fun c => (checkedSub c.nextUncovered 1).map (fun n => { c with nextUncovered := n }))
          (atTenant step.key.tenant (fun c => { c with nextActive := c.nextActive - 1 }) t.tenants)
          = some (atTenant step.key.tenant
              (fun c => { c with nextUncovered := c.nextUncovered - 1 })
              (atTenant step.key.tenant (fun c => { c with nextActive := c.nextActive - 1 })
                t.tenants)) := by
        refine onTenant_eq (hnames ▸ hnodup) (hnames ▸ hmem) (fun c hc htenant => ?_)
        obtain ⟨c₀, hc₀, rfl⟩ := List.mem_map.mp hc
        have htenant₀ : c₀.tenant = step.key.tenant := by
          split at htenant
          · assumption
          · exact htenant
        have hone : 1 ≤ c₀.nextUncovered := (htenants c₀ hc₀ htenant₀).2
        rw [if_pos htenant₀]
        rw [Receipts.checkedSub_of_le hone]
        rfl
      have htwice : atTenant step.key.tenant
            (fun c => { c with nextUncovered := c.nextUncovered - 1 })
            (atTenant step.key.tenant (fun c => { c with nextActive := c.nextActive - 1 })
              t.tenants)
          = atTenant step.key.tenant (fun c => { c with
              nextActive := c.nextActive - 1, nextUncovered := c.nextUncovered - 1 })
              t.tenants := by
        unfold atTenant
        rw [List.map_map]
        refine List.map_congr_left (fun c _ => ?_)
        by_cases hc : c.tenant = step.key.tenant
        · simp [hc]
        · simp [hc]
      rw [if_pos rfl, hless, Option.bind_some, htwice]
      rfl

/-! ## One step -/

theorem gone_of_unowned (h : step.owner = none) : s.gone step = false := by
  unfold State.gone
  rw [h]

theorem gone_of_claimed (h : (custody s o).Claimed step live) : s.gone step = live.dropped := by
  unfold State.gone
  rw [h.owner, show s.executions[step.key]? = some live from h.entry]

/-- **One step of `calculate`** does not fail where its entry is claimed and
the counters cover it. -/
theorem count_eq (hs : (custody s o).Sound)
    (hclaim : step.owner.isSome → ∃ live, (custody s o).Claimed step live)
    (hnodup : (t.tenants.map TenantChange.tenant).Nodup)
    (hmem : step.owner.isSome → step.key.tenant ∈ t.tenants.map TenantChange.tenant)
    (hactive : s.slots step ≤ t.active)
    (htenants : ∀ c ∈ t.tenants, c.tenant = step.key.tenant →
      s.slots step ≤ c.nextActive ∧ s.leftover b step ≤ c.nextUncovered)
    (hrelease : t.release + s.freed b step < 2 ^ 64) (hbytes : t.bytes + step.stored b < 2 ^ 64) :
    t.count s b step = .ok (t.after s b step) := by
  cases howner : step.owner with
  | none =>
    have hgone := gone_of_unowned (s := s) howner
    have hsame : atTenant step.key.tenant (fun c => { c with
        nextActive := c.nextActive - s.slots step
        nextUncovered := c.nextUncovered - s.leftover b step }) t.tenants = t.tenants :=
      atTenant_id (fun c => by simp [State.slots, State.leftover, hgone])
    unfold count
    rw [howner]
    refine congrArg Except.ok ?_
    unfold after
    rw [hsame]
    cases b with
    | true => simp [State.slots, State.leftover, State.freed, hgone, howner, Step.recorded,
        Step.moved, Step.stored]
    | false => simp [State.slots, State.leftover, State.freed, hgone, howner, Step.recorded,
        Step.moved, Step.stored, Step.opening, Step.charge]
  | some id =>
    obtain ⟨live, hlive⟩ := hclaim (by rw [howner]; rfl)
    have hid : id = live.owner := Option.some.inj (howner.symm.trans hlive.owner)
    have hentry : s.executions[step.key]? = some live := hlive.entry
    have hundone : (s.completions live.owner).done = false := hlive.undone
    have hgone : s.gone step = live.dropped := gone_of_claimed hlive
    have hmem' := hmem (by rw [howner]; rfl)
    -- the tally before a dropped lease is looked at
    set t₁ : Tally := { t with
      durable := t.durable + step.recorded b
      uncovered := t.uncovered + step.moved b
      release := t.release + (step.ends b).toNat
      bytes := t.bytes + step.stored b } with ht₁
    unfold count
    rw [howner]
    refine bind_eq_ok.mpr ⟨live, orFail_eq_ok.mpr hentry, bind_eq_ok.mpr ⟨(),
      ensure_eq_ok.mpr ⟨hid, hlive.covered, hid ▸ hundone⟩,
      bind_eq_ok.mpr ⟨t₁, orFail_eq_ok.mpr ?_, ?_⟩⟩⟩
    · cases b with
      | true => simp [ht₁, Step.recorded, Step.moved, Step.stored, Step.ends]
      | false =>
        cases hterm : step.terminal with
        | none =>
          simp [ht₁, Step.recorded, Step.moved, Step.stored, Step.ends, Step.opening, Step.charge,
            hterm, howner]
        | some added =>
          have hsum : t.bytes + (if added = 0 then 0 else added + rowOverhead) < 2 ^ 64 := by
            simpa [Step.stored, Step.charge, howner, hterm] using hbytes
          have hone : t.release + 1 < 2 ^ 64 := by
            simpa [State.freed, Step.ends, howner, hterm] using hrelease
          simp [ht₁, Step.recorded, Step.moved, Step.stored, Step.ends, Step.opening, Step.charge,
            hterm, howner, Receipts.checkedAdd_of_lt hone, addedBytes_eq hsum]
    cases hdropped : live.dropped with
    | false =>
      rw [hdropped] at hgone
      have hsame : atTenant step.key.tenant (fun c => { c with
          nextActive := c.nextActive - s.slots step
          nextUncovered := c.nextUncovered - s.leftover b step }) t.tenants = t.tenants :=
        atTenant_id (fun c => by simp [State.slots, State.leftover, hgone])
      refine congrArg Except.ok ?_
      unfold after
      rw [hsame, ht₁]
      simp [State.slots, State.leftover, State.freed, hgone, howner]
    | true =>
      rw [hdropped] at hgone
      have hrepair := (hs.dropped step.key live hlive.entry hdropped).2
      have hslots : s.slots step = 1 := by rw [State.slots, hgone]; rfl
      have hleft : s.leftover b step
          = (!(step.ends b) && !(if b then step.before else step.after)).toNat := by
        rw [State.leftover, hgone, Bool.true_and]
      have hdrop := @drop_eq b t₁ step hnodup hmem' (step.ends b) _ rfl (hslots ▸ hactive)
        (fun hend => by
          have := hrelease
          simp only [State.freed, howner, hgone, Option.isSome_some, Bool.or_true, Bool.and_true,
            Bool.toNat_true] at this
          simpa [ht₁, hend] using this)
        (fun c hc htenant => by
          have := htenants c hc htenant
          rwa [hslots, hleft] at this)
      refine bind_eq_ok.mpr ⟨(), ensure_eq_ok.mpr hrepair, orFail_eq_ok.mpr ?_⟩
      refine hdrop.trans (congrArg some ?_)
      unfold after
      rw [hslots, hleft, ht₁]
      have hfreed : s.freed b step
          = (step.ends b).toNat + (!step.ends b).toNat := by
        rw [State.freed, howner, hgone]
        cases step.ends b <;> rfl
      rw [hfreed, Nat.add_assoc]

/-! ## All steps -/

variable {steps : List Step}

theorem after_tenants :
    (t.after s b step).tenants.map TenantChange.tenant
      = t.tenants.map TenantChange.tenant :=
  atTenant_tenants (fun _ => rfl)

/-- **The loop of `calculate`** does not fail where every entry is claimed and
the counters cover all steps. -/
theorem count_all (hs : (custody s o).Sound) (hclaims : (custody s o).Claims steps)
    (hnodup : (t.tenants.map TenantChange.tenant).Nodup)
    (hmem : ∀ step ∈ steps, step.owner.isSome →
      step.key.tenant ∈ t.tenants.map TenantChange.tenant)
    (hactive : stepCount everyone s.slots steps ≤ t.active)
    (htenants : ∀ c ∈ t.tenants, stepCount (only c.tenant) s.slots steps ≤ c.nextActive
      ∧ stepCount (only c.tenant) (s.leftover b) steps ≤ c.nextUncovered)
    (hrelease : t.release + stepCount everyone (s.freed b) steps < 2 ^ 64)
    (hbytes : t.bytes + (steps.map (Step.stored b)).sum < 2 ^ 64) :
    steps.foldlM (Tally.count s b) t = .ok (steps.foldl (Tally.after s b) t) := by
  induction steps generalizing t with
  | nil => rfl
  | cons step steps ih =>
    obtain ⟨hclaim, hclaims'⟩ := List.forall_mem_cons.mp hclaims
    obtain ⟨hmem₀, hmem'⟩ := List.forall_mem_cons.mp hmem
    rw [stepCount_cons, if_pos rfl] at hactive hrelease
    rw [List.map_cons, List.sum_cons] at hbytes
    have hone : t.count s b step = .ok (t.after s b step) := by
      refine count_eq hs hclaim hnodup hmem₀ (le_trans (Nat.le_add_right _ _) hactive)
        (fun c hc htenant => ?_) (by omega) (by omega)
      have hsums := htenants c hc
      rw [stepCount_cons, stepCount_cons, if_pos (by simp [htenant]),
        if_pos (by simp [htenant])] at hsums
      omega
    have hnames : (t.after s b step).tenants.map TenantChange.tenant
        = t.tenants.map TenantChange.tenant := after_tenants
    rw [List.foldlM_cons, hone, List.foldl_cons]
    refine ih hclaims' (by rwa [hnames]) (by rwa [hnames])
      (Nat.le_sub_of_add_le (by omega)) (fun c hc => ?_) ?_ ?_
    · obtain ⟨c₀, hc₀, rfl⟩ := List.mem_map.mp hc
      have hsums := htenants c₀ hc₀
      rw [stepCount_cons, stepCount_cons] at hsums
      by_cases htenant : c₀.tenant = step.key.tenant
      · rw [if_pos (by simp [htenant]), if_pos (by simp [htenant])] at hsums
        rw [if_pos htenant]
        dsimp only
        omega
      · rw [if_neg (by simpa using Ne.symm htenant), if_neg (by simpa using Ne.symm htenant),
          Nat.zero_add, Nat.zero_add] at hsums
        rw [if_neg htenant]
        exact hsums
    · show t.release + s.freed b step + _ < _
      omega
    · show t.bytes + step.stored b + _ < _
      omega

/-- **The tally in closed form**: sums over the steps. -/
theorem after_all :
    steps.foldl (Tally.after s b) t =
      { tenants := t.tenants.map (fun c => { c with
          nextActive := c.nextActive - stepCount (only c.tenant) s.slots steps
          nextUncovered := c.nextUncovered
            - stepCount (only c.tenant) (s.leftover b) steps })
        active := t.active - stepCount everyone s.slots steps
        durable := t.durable + stepSum everyone (Step.recorded b) steps
        uncovered := t.uncovered + stepSum everyone (Step.moved b) steps
          - stepCount everyone (s.leftover b) steps
        release := t.release + stepCount everyone (s.freed b) steps
        bytes := t.bytes + (steps.map (Step.stored b)).sum } := by
  induction steps generalizing t with
  | nil => simp
  | cons step steps ih =>
    rw [List.foldl_cons, ih]
    unfold after atTenant
    simp only [stepCount_cons, stepSum_cons, if_true, List.map_cons, List.sum_cons, List.map_map]
    congr 1
    · refine List.map_congr_left (fun c _ => ?_)
      rw [Function.comp_apply]
      by_cases htenant : c.tenant = step.key.tenant
      · rw [if_pos htenant]
        simp [htenant, Nat.sub_sub]
      · rw [if_neg htenant]
        simp [Ne.symm htenant]
    · exact Nat.sub_sub _ _ _
    · exact Int.add_assoc _ _ _
    · push_cast
      omega
    · exact Nat.add_assoc _ _ _
    · exact Nat.add_assoc _ _ _

/-! ## What a success says -/

theorem drop_keeps {terminal : Bool} (h : t.drop step terminal b = some t') :
    t'.durable = t.durable ∧ t'.bytes = t.bytes
      ∧ t'.tenants.map (fun c => (c.tenant, c.durable, c.uncovered))
        = t.tenants.map (fun c => (c.tenant, c.durable, c.uncovered)) := by
  have hkeep : ∀ {f : TenantChange → Option TenantChange} {ts ts' : List TenantChange},
      (∀ c c', f c = some c' →
        (c'.tenant, c'.durable, c'.uncovered) = (c.tenant, c.durable, c.uncovered)) →
      onTenant step.key.tenant f ts = some ts' →
      ts'.map (fun c => (c.tenant, c.durable, c.uncovered))
        = ts.map (fun c => (c.tenant, c.durable, c.uncovered)) :=
    fun hk hf => onTenant_map (k := fun c => (c.tenant, c.durable, c.uncovered)) hk hf
  have hslot : ∀ c c' : TenantChange,
      (checkedSub c.nextActive 1).map (fun n => { c with nextActive := n }) = some c' →
        (c'.tenant, c'.durable, c'.uncovered) = (c.tenant, c.durable, c.uncovered) := by
    intro c c' hc
    obtain ⟨_, -, rfl⟩ := Option.map_eq_some_iff.mp hc
    rfl
  have hpotential : ∀ c c' : TenantChange,
      (checkedSub c.nextUncovered 1).map (fun n => { c with nextUncovered := n }) = some c' →
        (c'.tenant, c'.durable, c'.uncovered) = (c.tenant, c.durable, c.uncovered) := by
    intro c c' hc
    obtain ⟨_, -, rfl⟩ := Option.map_eq_some_iff.mp hc
    rfl
  unfold drop at h
  simp only [Option.bind_eq_bind, Option.bind_eq_some_iff] at h
  obtain ⟨active, -, tenants, htenants, h⟩ := h
  split at h
  · obtain rfl := Option.some.inj h
    exact ⟨rfl, rfl, hkeep hslot htenants⟩
  · obtain ⟨release, -, h⟩ := Option.bind_eq_some_iff.mp h
    generalize (if b = true then !step.before else !step.after) = uncovered at h
    split at h
    · obtain ⟨tenants', htenants', h⟩ := Option.bind_eq_some_iff.mp h
      obtain rfl := Option.some.inj h
      exact ⟨rfl, rfl, (hkeep hpotential htenants').trans (hkeep hslot htenants)⟩
    · obtain rfl := Option.some.inj h
      exact ⟨rfl, rfl, hkeep hslot htenants⟩

theorem addedBytes_eq_some {bytes added n : ℕ} (h : addedBytes bytes added = some n) :
    n = bytes + if added = 0 then 0 else added + rowOverhead := by
  obtain ⟨m, hm, h⟩ := Option.bind_eq_some_iff.mp h
  obtain ⟨-, rfl⟩ := Receipts.checkedAdd_eq_some.mp hm
  split at h
  · next hadded =>
    rw [if_pos hadded, ← Option.some.inj h, hadded]
  · next hadded =>
    obtain ⟨-, rfl⟩ := Receipts.checkedAdd_eq_some.mp h
    rw [if_neg hadded, Nat.add_assoc]

/-- **What a counted step has added** of obligations and bytes. -/
theorem count_keeps (h : t.count s false step = .ok t') :
    t'.durable = t.durable + step.durable ∧ t'.bytes = t.bytes + step.charge
      ∧ t'.tenants.map (fun c => (c.tenant, c.durable, c.uncovered))
        = t.tenants.map (fun c => (c.tenant, c.durable, c.uncovered)) := by
  unfold count at h
  cases howner : step.owner with
  | none =>
    rw [howner] at h
    obtain rfl := Except.ok.inj h
    exact ⟨rfl, by simp [Step.charge, howner], rfl⟩
  | some id =>
    rw [howner] at h
    simp only [bind_eq_ok, ensure_eq_ok, orFail_eq_ok] at h
    obtain ⟨live, -, -, -, t₁, ht₁, h⟩ := h
    have hopened : t₁.durable = t.durable + step.durable ∧ t₁.bytes = t.bytes + step.charge
        ∧ t₁.tenants = t.tenants := by
      cases hterm : step.terminal with
      | none =>
        simp only [hterm, Option.isSome_none, Bool.and_false, Bool.false_eq_true, if_false,
          Option.some.injEq] at ht₁
        subst ht₁
        exact ⟨rfl, by simp [Step.charge, howner, hterm], rfl⟩
      | some added =>
        simp only [hterm, Option.isSome_some, Bool.and_true, Bool.not_false, Bool.false_eq_true,
          if_false, Option.bind_eq_bind, Option.bind_eq_some_iff, Option.some.injEq] at ht₁
        obtain ⟨release, -, bytes, hbytes, rfl⟩ := ht₁
        exact ⟨rfl, by simp [Step.charge, howner, hterm, addedBytes_eq_some hbytes], rfl⟩
    split at h
    · obtain ⟨-, -, hdrop⟩ := bind_eq_ok.mp h
      obtain ⟨hdurable, hbytes, htenants⟩ := drop_keeps (orFail_eq_ok.mp hdrop)
      exact ⟨hdurable.trans hopened.1, hbytes.trans hopened.2.1, hopened.2.2 ▸ htenants⟩
    · obtain rfl := Except.ok.inj h
      exact ⟨hopened.1, hopened.2.1, by rw [hopened.2.2]⟩

theorem countAll_keeps (h : steps.foldlM (Tally.count s false) t = .ok t') :
    t'.durable = t.durable + stepSum everyone Step.durable steps
      ∧ t'.bytes = t.bytes + (steps.map Step.charge).sum
      ∧ t'.tenants.map (fun c => (c.tenant, c.durable, c.uncovered))
        = t.tenants.map (fun c => (c.tenant, c.durable, c.uncovered)) := by
  induction steps generalizing t with
  | nil =>
    obtain rfl := Except.ok.inj h
    simp
  | cons step steps ih =>
    obtain ⟨t₁, hone, hrest⟩ := bind_eq_ok.mp h
    obtain ⟨hdurable, hbytes, htenants⟩ := count_keeps hone
    obtain ⟨hdurable', hbytes', htenants'⟩ := ih hrest
    refine ⟨?_, ?_, htenants'.trans htenants⟩
    · rw [hdurable', hdurable, stepSum_cons, if_pos rfl, Int.add_assoc]
    · rw [hbytes', hbytes, List.map_cons, List.sum_cons, Nat.add_assoc]

end Tally

end BitRouter.Admission
