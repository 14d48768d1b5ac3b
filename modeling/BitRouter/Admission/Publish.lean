import BitRouter.Admission.Amounts
import Mathlib.Data.List.Nodup

/-!
# Publications are consumed

From every state that keeps the invariant a prepared publication is published
or rolled back without a failure, whatever has happened to its leases
meanwhile, and the invariant survives (`Kept.finishPublication`).
-/

namespace BitRouter.Admission

open Tenancy
open Receipts (Totals reservation)

/-! ## What `calculate` answers -/

/-- A touched tenant, with its counts after the outcome. -/
def State.outcome (s : State) (p : Publication) (rollback : Bool) (t : TenantChange) :
    TenantChange where
  tenant := t.tenant
  durable := t.durable
  uncovered := t.uncovered
  nextUnknown := (s.counts t.tenant).unknown.map (fun n : ℕ =>
    ((n : ℤ) + stepSum (only t.tenant) (Step.recorded rollback) p.steps).toNat)
  nextUncovered := (((s.counts t.tenant).uncovered : ℤ)
      + stepSum (only t.tenant) (Step.moved rollback) p.steps).toNat
    - stepCount (only t.tenant) (s.leftover rollback) p.steps
  nextActive := (s.counts t.tenant).active - stepCount (only t.tenant) s.slots p.steps

/-- The totals with what a publication changes. -/
def withOutcome (totals : Totals) (unknown uncovered live reserved bytes : ℕ) : Totals :=
  { totals with
    unknown := unknown, uncovered := uncovered, live := live, reserved := reserved
    bytes := bytes }

theorem withOutcome_repairs (totals : Totals) (unknown uncovered live reserved bytes : ℕ) :
    (withOutcome totals unknown uncovered live reserved bytes).repairLive = totals.repairLive
      ∧ (withOutcome totals unknown uncovered live reserved bytes).repairReserved
        = totals.repairReserved := ⟨rfl, rfl⟩

def State.outcomeTotals (s : State) (p : Publication) (rollback : Bool) : Totals :=
  withOutcome s.receipts.totals
    ((s.receipts.totals.unknown : ℤ) + stepSum everyone (Step.recorded rollback) p.steps).toNat
    ((s.receipts.totals.uncovered : ℤ) + stepSum everyone (Step.moved rollback) p.steps
      - stepCount everyone (s.leftover rollback) p.steps).toNat
    (s.receipts.totals.live - stepCount everyone (s.freed rollback) p.steps)
    (s.receipts.totals.reserved - stepCount everyone (s.freed rollback) p.steps * reservation)
    (s.receipts.totals.bytes + (p.steps.map (Step.stored rollback)).sum)

variable {t : TenantChange}

namespace Kept

variable {w : World} {p : Publication} {b : Bool}

section

variable (h : Kept w) (hp : w.held.publication = some p)

include h hp

theorem prepared_of :
    Prepared w.state w.held p := by
  have hpending := h.pending
  unfold Pending at hpending
  rw [hp] at hpending
  exact hpending

theorem touched_counts (ht : t ∈ p.tenants) :
    w.state.tenants[t.tenant]? = some (w.state.counts t.tenant)
      ∧ (w.state.counts t.tenant).pins = w.held.pins.count t.tenant + 1 := by
  have htouches : w.held.touches t.tenant = 1 := by
    unfold Held.touches
    rw [hp]
    exact List.count_eq_one_of_mem (h.prepared_of hp).tenants (List.mem_map_of_mem ht)
  have hpins := h.books.pins t.tenant
  rw [htouches] at hpins
  refine ⟨State.get_of_counts_ne (fun heq => ?_), hpins⟩
  rw [heq] at hpins
  exact absurd hpins (by simp)

theorem loads_settled (q : TenantId → Bool) :
    let c' := (custody w.state w.held).settled b p
    c'.load q .active + stepCount q w.state.slots p.steps
        = (custody w.state w.held).load q .active
      ∧ (c'.load q .uncovered : ℤ) + stepCount q (w.state.leftover b) p.steps
        = (custody w.state w.held).load q .uncovered + stepSum q (Step.moved b) p.steps
      ∧ c'.load q .live + stepCount q (w.state.freed b) p.steps
        = (custody w.state w.held).load q .live
      ∧ c'.load q .repair = (custody w.state w.held).load q .repair
      ∧ c'.load q .uncovered ≤ c'.load q .live ∧ c'.load q .repair ≤ c'.load q .live := by
  have hprep := h.prepared_of hp
  obtain ⟨h1, h2, h3, h4⟩ := hprep.loads (q := q) (b := b) h.sound
  exact ⟨h1, h2, h3, h4, Custody.load_uncovered_le_live,
    (hprep.sound_settled h.sound).load_repair_le_live⟩

end

/-- A lease can only leave as much uncovered potential as it has completions
to release. -/
theorem leftover_le_freed (s : State) (q : TenantId → Bool) (steps : List Step) :
    stepCount q (s.leftover b) steps ≤ stepCount q (s.freed b) steps := by
  refine List.sum_le_sum (fun step _ => ?_)
  split
  · unfold State.leftover State.freed State.gone
    cases step.owner with
    | none => simp
    | some id =>
      cases s.executions[step.key]? with
      | none => simp
      | some live =>
        dsimp only
        cases live.dropped with
        | false => simp
        | true => rw [Bool.or_true]; exact Bool.toNat_le _
  · exact le_rfl

theorem openTenant_ok (h : Kept w) (hp : w.held.publication = some p) (ht : t ∈ p.tenants) :
    openTenant w.state p.finished b t = .ok { t with
      nextActive := (w.state.counts t.tenant).active
      nextUnknown := (w.state.counts t.tenant).unknown.map (fun n : ℕ =>
        ((n : ℤ) + stepSum (only t.tenant) (Step.recorded b) p.steps).toNat)
      nextUncovered := (((w.state.counts t.tenant).uncovered : ℤ)
        + stepSum (only t.tenant) (Step.moved b) p.steps).toNat } := by
  have hprep := h.prepared_of hp
  obtain ⟨hget, hpins⟩ := h.touched_counts hp ht
  obtain ⟨-, h2, h3, -, h5, -⟩ := h.loads_settled (b := b) hp (only t.tenant)
  have hlive : (custody w.state w.held).load (only t.tenant) .live < 2 ^ 64 :=
    lt_of_le_of_lt (Custody.load_mono (q := everyone) (fun _ _ => rfl))
      (h.books.charged.allLive ▸ h.live_lt)
  have hleft := leftover_le_freed (b := b) w.state (only t.tenant) p.steps
  have huncovered := h.books.charged.uncovered t.tenant
  unfold openTenant
  rw [hprep.durable_eq ht, hprep.uncovered_eq ht]
  refine bind_eq_ok.mpr ⟨_, orFail_eq_ok.mpr hget, bind_eq_ok.mpr ⟨(),
    ensure_eq_ok.mpr (Or.inr (by omega)), ?_⟩⟩
  have hadjust : adjust (w.state.counts t.tenant).uncovered
      (stepSum (only t.tenant) (Step.moved b) p.steps)
      = .ok (((w.state.counts t.tenant).uncovered : ℤ)
        + stepSum (only t.tenant) (Step.moved b) p.steps).toNat :=
    adjust_ok (by omega) (by omega)
  cases hunknown : (w.state.counts t.tenant).unknown with
  | none => exact bind_eq_ok.mpr ⟨none, rfl, bind_eq_ok.mpr ⟨_, hadjust, rfl⟩⟩
  | some n =>
    obtain ⟨hlow, hhigh⟩ := hprep.cached_adjust (b := b) h.bounded ht hunknown
    exact bind_eq_ok.mpr ⟨_, adjust_ok hlow hhigh, bind_eq_ok.mpr ⟨_, rfl,
      bind_eq_ok.mpr ⟨_, hadjust, rfl⟩⟩⟩

/-- **`calculate` succeeds for both outcomes.** -/
theorem calculate_ok (h : Kept w) (hp : w.held.publication = some p) :
    p.calculate w.state b
      = .ok (p.tenants.map (w.state.outcome p b), w.state.outcomeTotals p b,
          w.state.active - stepCount everyone w.state.slots p.steps) := by
  have hprep := h.prepared_of hp
  have hc := h.books.charged
  obtain ⟨a1, a2, a3, a4, a5, a6⟩ := h.loads_settled (b := b) hp everyone
  have hlive := h.live_lt
  -- the tenants as they are opened
  have hopen : p.tenants.mapM (openTenant w.state p.finished b)
      = .ok (p.tenants.map (fun t => { t with
          nextActive := (w.state.counts t.tenant).active
          nextUnknown := (w.state.counts t.tenant).unknown.map (fun n : ℕ =>
            ((n : ℤ) + stepSum (only t.tenant) (Step.recorded b) p.steps).toNat)
          nextUncovered := (((w.state.counts t.tenant).uncovered : ℤ)
            + stepSum (only t.tenant) (Step.moved b) p.steps).toNat })) := by
    refine mapM_eq_ok.mpr (List.forall₂_map_right_iff.mpr (List.forall₂_same.mpr (fun t ht => ?_)))
    exact h.openTenant_ok hp ht
  set opened := p.tenants.map (fun t : TenantChange => { t with
      nextActive := (w.state.counts t.tenant).active
      nextUnknown := (w.state.counts t.tenant).unknown.map (fun n : ℕ =>
        ((n : ℤ) + stepSum (only t.tenant) (Step.recorded b) p.steps).toNat)
      nextUncovered := (((w.state.counts t.tenant).uncovered : ℤ)
        + stepSum (only t.tenant) (Step.moved b) p.steps).toNat }) with hopened
  have hnames : opened.map TenantChange.tenant = p.tenants.map TenantChange.tenant := by
    rw [hopened, List.map_map]
    rfl
  -- the steps
  have hcount := Tally.count_all (b := b)
    (t := ({ tenants := opened, active := w.state.active } : Tally)) h.sound hprep.claims
    (hnames ▸ hprep.tenants)
    (fun step hstep hsome => hnames ▸ hprep.touched step hstep (Or.inl hsome))
    (by
      show stepCount everyone w.state.slots p.steps ≤ w.state.active
      have := hc.allActive
      omega)
    (fun c hcm => by
      obtain ⟨t, ht, rfl⟩ := List.mem_map.mp hcm
      obtain ⟨b1, b2, -⟩ := h.loads_settled (b := b) hp (only t.tenant)
      have := hc.active t.tenant
      have := hc.uncovered t.tenant
      dsimp only
      omega)
    (by
      show 0 + _ < _
      have := hc.allLive
      omega)
    (by
      show 0 + _ < _
      have := hprep.bytes_fit (b := b)
      omega)
  rw [Tally.after_all] at hcount
  -- the totals
  have hreserved := hc.reserved
  have hrelease : stepCount everyone (w.state.freed b) p.steps
      ≤ w.state.receipts.totals.live - w.state.receipts.totals.repairLive := by
    have := hc.allLive
    have := hc.allRepairs
    omega
  have hmul : stepCount everyone (w.state.freed b) p.steps * reservation
      ≤ w.state.receipts.totals.reserved := by
    rw [hreserved]
    exact le_trans (Nat.mul_le_mul_right _ hrelease) (Nat.le_add_right _ _)
  obtain ⟨hlow, hhigh⟩ := hprep.unknown_adjust (b := b) h.bounded
  have hallLive := hc.allLive
  have hallUncovered := hc.allUncovered
  have htotals : (Tally.totals
      { tenants := opened.map (fun c => { c with
          nextActive := c.nextActive - stepCount (only c.tenant) w.state.slots p.steps
          nextUncovered := c.nextUncovered
            - stepCount (only c.tenant) (w.state.leftover b) p.steps })
        active := w.state.active - stepCount everyone w.state.slots p.steps
        durable := 0 + stepSum everyone (Step.recorded b) p.steps
        uncovered := 0 + stepSum everyone (Step.moved b) p.steps
          - stepCount everyone (w.state.leftover b) p.steps
        release := 0 + stepCount everyone (w.state.freed b) p.steps
        bytes := 0 + (p.steps.map (Step.stored b)).sum } w.state.receipts.totals)
      = .ok (w.state.outcomeTotals p b) := by
    have hbytes := hprep.bytes_fit (b := b)
    have hbound := h.bounded.reserved
    have hless : stepCount everyone (w.state.freed b) p.steps
        ≤ w.state.receipts.totals.live := by omega
    have hmoved : 0 ≤ (w.state.receipts.totals.uncovered : ℤ)
          + (stepSum everyone (Step.moved b) p.steps
            - stepCount everyone (w.state.leftover b) p.steps)
        ∧ (w.state.receipts.totals.uncovered : ℤ)
          + (stepSum everyone (Step.moved b) p.steps
            - stepCount everyone (w.state.leftover b) p.steps) < 2 ^ 64
        ∧ ((w.state.receipts.totals.uncovered : ℤ)
          + (stepSum everyone (Step.moved b) p.steps
            - stepCount everyone (w.state.leftover b) p.steps)).toNat
          ≤ w.state.receipts.totals.live - stepCount everyone (w.state.freed b) p.steps := by
      omega
    simp only [Int.zero_add, Nat.zero_add]
    refine bind_eq_ok.mpr ⟨_, adjust_ok hlow hhigh,
      bind_eq_ok.mpr ⟨_, adjust_ok hmoved.1 hmoved.2.1,
      bind_eq_ok.mpr ⟨_, orFail_eq_ok.mpr (Receipts.checkedSub_of_le hless),
      bind_eq_ok.mpr ⟨_, orFail_eq_ok.mpr
        (Receipts.checkedMul_of_lt (lt_of_le_of_lt hmul hbound)),
      bind_eq_ok.mpr ⟨_, orFail_eq_ok.mpr (Receipts.checkedSub_of_le hmul),
      bind_eq_ok.mpr ⟨_, orFail_eq_ok.mpr (Receipts.checkedAdd_of_lt hbytes),
      bind_eq_ok.mpr ⟨(), ensure_eq_ok.mpr hmoved.2.2, ?_⟩⟩⟩⟩⟩⟩⟩
    unfold State.outcomeTotals
    rw [Int.add_sub_assoc]
    rfl
  refine bind_eq_ok.mpr ⟨_, orFail_eq_ok.mpr (Receipts.checkedAdd_of_lt hprep.counter),
    bind_eq_ok.mpr ⟨opened, hopen, bind_eq_ok.mpr ⟨_, hcount, bind_eq_ok.mpr ⟨_, htotals, ?_⟩⟩⟩⟩
  refine congrArg Except.ok (Prod.ext ?_ rfl)
  show opened.map _ = _
  rw [hopened, List.map_map]
  rfl

end Kept

/-! ## The state after the outcome -/

namespace State

variable {s : State} {o : Held} {p : Publication} {b : Bool}

theorem settleTenants_eq (ts : List TenantChange) :
    ts.foldl settleTenant s = { s with tenants := (ts.foldl settleTenant s).tenants } := by
  induction ts generalizing s with
  | nil => rfl
  | cons t ts ih =>
    rw [List.foldl_cons, ih]
    have hone : s.settleTenant t = { s with tenants := (s.settleTenant t).tenants } := by
      unfold settleTenant
      split <;> rfl
    rw [hone]

def settledCounts (c : Counts) (t : TenantChange) : Counts :=
  { c with
    unknown := t.nextUnknown, uncovered := t.nextUncovered, active := t.nextActive
    pins := decrement c.pins }

theorem settleTenant_counts {u : TenantId}
    (hget : s.tenants[t.tenant]? = some (s.counts t.tenant)) :
    (s.settleTenant t).counts u
      = if u = t.tenant then settledCounts (s.counts t.tenant) t else s.counts u := by
  unfold settleTenant
  rw [hget]
  exact counts_setCounts

/-- **The counts after the tenants are settled.** -/
theorem settleTenants_counts {ts : List TenantChange}
    (hnodup : (ts.map TenantChange.tenant).Nodup)
    (hget : ∀ t ∈ ts, s.tenants[t.tenant]? = some (s.counts t.tenant)) :
    (∀ t ∈ ts, (ts.foldl settleTenant s).counts t.tenant
        = settledCounts (s.counts t.tenant) t)
      ∧ ∀ u, u ∉ ts.map TenantChange.tenant →
          (ts.foldl settleTenant s).counts u = s.counts u := by
  induction ts generalizing s with
  | nil => exact ⟨by simp, fun _ _ => rfl⟩
  | cons t ts ih =>
    obtain ⟨hnotin, hnodup'⟩ := List.nodup_cons.mp hnodup
    obtain ⟨hhead, htail⟩ := List.forall_mem_cons.mp hget
    have hother : ∀ u, u ≠ t.tenant → (s.settleTenant t).counts u = s.counts u := fun u hu => by
      rw [settleTenant_counts hhead, if_neg hu]
    have hne : ∀ t' ∈ ts, t'.tenant ≠ t.tenant := fun t' ht' heq =>
      hnotin (heq ▸ List.mem_map_of_mem ht')
    have hget' : ∀ t' ∈ ts, (s.settleTenant t).tenants[t'.tenant]?
        = some ((s.settleTenant t).counts t'.tenant) := by
      intro t' ht'
      rw [hother _ (hne t' ht'), ← htail t' ht']
      unfold settleTenant
      rw [hhead]
      show (s.tenants.insert t.tenant _)[t'.tenant]? = _
      rw [Std.TreeMap.getElem?_insert, if_neg]
      rw [Std.LawfulEqOrd.compare_eq_iff_eq]
      exact Ne.symm (hne t' ht')
    obtain ⟨hin, hout⟩ := ih hnodup' hget'
    refine ⟨List.forall_mem_cons.mpr ⟨?_, fun t' ht' => ?_⟩, fun u hu => ?_⟩
    · rw [List.foldl_cons, hout _ hnotin, settleTenant_counts hhead, if_pos rfl]
    · rw [List.foldl_cons, hin t' ht', hother _ (hne t' ht')]
    · obtain ⟨hu₁, hu₂⟩ := not_or.mp (List.mem_cons.not.mp (List.map_cons ▸ hu))
      rw [List.foldl_cons, hout u hu₂, hother u hu₁]

theorem settleSteps_eq (steps : List Step) :
    steps.foldl (settleStep b) s = { s with
      executions := (steps.foldl (settleStep b) s).executions
      completions := (steps.foldl (settleStep b) s).completions } := by
  induction steps generalizing s with
  | nil => rfl
  | cons step steps ih =>
    rw [List.foldl_cons, ih]
    have hone : s.settleStep b step = { s with
        executions := (s.settleStep b step).executions
        completions := (s.settleStep b step).completions } := by
      unfold settleStep
      split
      · dsimp only
        split <;> rfl
      · rfl
    rw [hone]

/-- **Settling steps in the state settles them in its custody.** -/
theorem custody_settleSteps (steps : List Step) :
    custody (steps.foldl (settleStep b) s) o
      = steps.foldl (Custody.settle b) (custody s o) := by
  induction steps generalizing s with
  | nil => rfl
  | cons step steps ih =>
    rw [List.foldl_cons, List.foldl_cons, ih]
    congr 1
    unfold settleStep Custody.settle
    cases howner : step.owner with
    | none => rfl
    | some id =>
      have hsame : (custody s o).entries[step.key]? = s.executions[step.key]? := rfl
      rw [hsame]
      cases s.executions[step.key]? with
      | none => rfl
      | some live =>
        dsimp only
        split
        · rfl
        · rfl

/-- The state after an outcome, with the counts nothing holds any more. -/
def settleWith (s : State) (p : Publication) (rollback : Bool) (ts : List TenantChange)
    (totals : Totals) (active : ℕ) : State :=
  let s₁ : State := { s with receipts := { s.receipts with totals := totals }, active := active }
  let s₂ := ts.foldl settleTenant s₁
  let s₃ := p.steps.foldl (settleStep rollback) s₂
  { s₃ with
    unknownGeneration := if rollback then s.unknownGeneration else s.unknownGeneration + 1
    publicationPending := none }

section Settle

variable {ts : List TenantChange} {totals : Totals} {active : ℕ}

theorem settleWith_eq : s.settleWith p b ts totals active = { s with
    receipts := { s.receipts with totals := totals }
    active := active
    tenants := (s.settleWith p b ts totals active).tenants
    executions := (s.settleWith p b ts totals active).executions
    completions := (s.settleWith p b ts totals active).completions
    unknownGeneration := if b then s.unknownGeneration else s.unknownGeneration + 1
    publicationPending := none } := by
  unfold settleWith
  dsimp only
  rw [settleSteps_eq, settleTenants_eq]

theorem settleWith_counts (u : TenantId) :
    (s.settleWith p b ts totals active).counts u = (ts.foldl settleTenant s).counts u := by
  have hsteps : ∀ s₂ : State, (p.steps.foldl (settleStep b) s₂).tenants = s₂.tenants :=
    fun s₂ => by rw [settleSteps_eq]
  have htenants : ∀ (ts : List TenantChange) (s₁ s₂ : State), s₁.tenants = s₂.tenants →
      (ts.foldl settleTenant s₁).tenants = (ts.foldl settleTenant s₂).tenants := by
    intro ts
    induction ts with
    | nil => exact fun _ _ h => h
    | cons t ts ih =>
      intro s₁ s₂ h
      refine ih _ _ ?_
      unfold settleTenant
      rw [h]
      split
      · show s₁.tenants.insert _ _ = s₂.tenants.insert _ _
        rw [h]
      · exact h
  have hmap : (s.settleWith p b ts totals active).tenants
      = (ts.foldl settleTenant s).tenants :=
    (hsteps _).trans (htenants _ _ _ rfl)
  unfold counts
  rw [hmap]

theorem custody_settleWith (ts : List TenantChange) (totals : Totals) (active : ℕ) :
    custody (s.settleWith p b ts totals active) { o with publication := none }
      = p.steps.foldl (Custody.settle b) (custody s o) := by
  have hsteps := custody_settleSteps (b := b) (o := o) (s := ts.foldl settleTenant
    { s with receipts := { s.receipts with totals := totals }, active := active }) p.steps
  have hstart : custody (ts.foldl settleTenant { s with
      receipts := { s.receipts with totals := totals }, active := active }) o = custody s o := by
    rw [settleTenants_eq]
    rfl
  rw [hstart] at hsteps
  exact hsteps

theorem settleWith_active : (s.settleWith p b ts totals active).active = active := by
  rw [settleWith_eq]

theorem settleWith_receipts : (s.settleWith p b ts totals active).receipts
    = { s.receipts with totals := totals } := by rw [settleWith_eq]

theorem settleWith_queue : (s.settleWith p b ts totals active).queue = s.queue := by
  rw [settleWith_eq]

theorem settleWith_learning :
    (s.settleWith p b ts totals active).learning = s.learning := by rw [settleWith_eq]

theorem settleWith_ingress : (s.settleWith p b ts totals active).ingress = s.ingress
    ∧ (s.settleWith p b ts totals active).ingressBytes = s.ingressBytes := by
  rw [settleWith_eq]
  exact ⟨rfl, rfl⟩

/-- **What is left of a finished publication**: dropping idle counts. -/
theorem finishPublication_eq (hfence : s.receipts.fenced = false)
    (hgeneration : s.unknownGeneration = p.generation)
    (htoken : s.publicationPending = some p.token)
    (hcalculate : p.calculate s b = .ok (ts, totals, active)) :
    s.finishPublication p b = .ok (ts.foldl (fun s t => s.idle t.tenant)
      (s.settleWith p b ts totals active)) := by
  have hgen : ∀ s₃ : State, s₃.unknownGeneration = s.unknownGeneration →
      ({ (if b then s₃ else { s₃ with unknownGeneration := s₃.unknownGeneration + 1 }) with
        publicationPending := none } : State)
      = { s₃ with
          unknownGeneration := if b then s.unknownGeneration else s.unknownGeneration + 1
          publicationPending := none } := by
    intro s₃ h
    rw [← h]
    cases b <;> rfl
  refine bind_eq_ok.mpr ⟨(), ensure_eq_ok.mpr ⟨hfence, hgeneration, htoken⟩,
    bind_eq_ok.mpr ⟨_, hcalculate, congrArg Except.ok ?_⟩⟩
  rw [hgen _ (by rw [settleSteps_eq, settleTenants_eq])]
  rfl

end Settle

def settledState (s : State) (p : Publication) (rollback : Bool) : State :=
  s.settleWith p rollback (p.tenants.map (s.outcome p rollback)) (s.outcomeTotals p rollback)
    (s.active - stepCount everyone s.slots p.steps)

theorem settledState_active : (s.settledState p b).active
    = s.active - stepCount everyone s.slots p.steps := settleWith_active

theorem settledState_receipts : (s.settledState p b).receipts
    = { s.receipts with totals := s.outcomeTotals p b } := settleWith_receipts

theorem outcomeTotals_reserved : (s.outcomeTotals p b).reserved
    = s.receipts.totals.reserved - stepCount everyone (s.freed b) p.steps * reservation :=
  rfl

end State

/-- **The charges after an outcome**, for any amounts that the loads have lost. -/
theorem Charged.settled {counts counts' : TenantId → Counts} {active : ℕ}
    {totals totals' : Totals} {c c' : Custody} {taken left released : (TenantId → Bool) → ℕ}
    {moved : (TenantId → Bool) → ℤ} (h : Charged counts active totals c)
    (hactive : ∀ q, c'.load q .active + taken q = c.load q .active)
    (huncovered : ∀ q, (c'.load q .uncovered : ℤ) + left q = c.load q .uncovered + moved q)
    (hlive : ∀ q, c'.load q .live + released q = c.load q .live)
    (hrepair : ∀ q, c'.load q .repair = c.load q .repair) (hrepairs : c'.repairs = c.repairs)
    (hle : c'.load everyone .repair ≤ c'.load everyone .live)
    (hcounts : ∀ u, (counts' u).active = (counts u).active - taken (only u)
      ∧ (counts' u).uncovered = (((counts u).uncovered : ℤ) + moved (only u)).toNat - left (only u)
      ∧ (counts' u).repairs = (counts u).repairs)
    (hallUncovered : totals'.uncovered
      = ((totals.uncovered : ℤ) + moved everyone - left everyone).toNat)
    (hallLive : totals'.live = totals.live - released everyone)
    (hreserved : totals'.reserved = totals.reserved - released everyone * reservation)
    (hrows : totals'.repairLive = totals.repairLive
      ∧ totals'.repairReserved = totals.repairReserved) :
    Charged counts' (active - taken everyone) totals' c' where
  active u := by
    have h1 := h.active u
    have h2 := hactive (only u)
    have h3 := (hcounts u).1
    omega
  uncovered u := by
    have h1 := h.uncovered u
    have h2 := huncovered (only u)
    have h3 := (hcounts u).2.1
    omega
  repairs u := by rw [(hcounts u).2.2, hrepair, h.repairs]
  allActive := by
    have h1 := h.allActive
    have h2 := hactive everyone
    omega
  allUncovered := by
    have h1 := h.allUncovered
    have h2 := huncovered everyone
    omega
  allLive := by
    have h1 := h.allLive
    have h2 := hlive everyone
    omega
  allRepairs := by rw [hrows.1, hrepair, h.allRepairs]
  reserved := by
    have hsum := h.reserved
    have hless : released everyone ≤ totals.live - totals.repairLive := by
      have h1 := hlive everyone
      have h2 := hrepair everyone
      have h3 := h.allLive
      have h4 := h.allRepairs
      omega
    have hmul : released everyone * reservation
        ≤ (totals.live - totals.repairLive) * reservation := Nat.mul_le_mul_right _ hless
    rw [hreserved, hallLive, hrows.1, hrows.2, Nat.sub_right_comm, Nat.sub_mul]
    generalize released everyone * reservation = freed at hmul ⊢
    generalize (totals.live - totals.repairLive) * reservation = base at hmul hsum ⊢
    omega
  repairReserved := by rw [hrows.2, hrepairs, h.repairReserved]
  repairRows := by rw [hrows.1, hrepairs, h.repairRows]
  charged := hrepairs ▸ h.charged

namespace Kept

variable {w : World} {p : Publication} {b : Bool}

section

variable (h : Kept w) (hp : w.held.publication = some p)

include h hp

/-- The counts after the outcome: a touched tenant's have moved, the others'
not. -/
theorem counts_settled :
    (∀ t ∈ p.tenants, (w.state.settledState p b).counts t.tenant
        = State.settledCounts (w.state.counts t.tenant) (w.state.outcome p b t))
      ∧ ∀ u, u ∉ p.tenants.map TenantChange.tenant →
          (w.state.settledState p b).counts u = w.state.counts u := by
  have hprep := h.prepared_of hp
  have hnames : (p.tenants.map (w.state.outcome p b)).map TenantChange.tenant
      = p.tenants.map TenantChange.tenant := by
    rw [List.map_map]
    rfl
  obtain ⟨hin, hout⟩ := @State.settleTenants_counts w.state
    (p.tenants.map (w.state.outcome p b)) (hnames ▸ hprep.tenants)
    (fun t ht => by
      obtain ⟨t₀, ht₀, rfl⟩ := List.mem_map.mp ht
      exact (h.touched_counts hp ht₀).1)
  refine ⟨fun t ht => ?_, fun u hu => ?_⟩
  · exact (State.settleWith_counts _).trans (hin _ (List.mem_map_of_mem ht))
  · exact (State.settleWith_counts _).trans (hout u (hnames ▸ hu))

/-- What every tenant's counts come to, touched or not. -/
theorem counts_outcome (u : TenantId) :
    ((w.state.settledState p b).counts u).active
        = (w.state.counts u).active - stepCount (only u) w.state.slots p.steps
      ∧ ((w.state.settledState p b).counts u).uncovered
        = (((w.state.counts u).uncovered : ℤ)
            + stepSum (only u) (Step.moved b) p.steps).toNat
          - stepCount (only u) (w.state.leftover b) p.steps
      ∧ ((w.state.settledState p b).counts u).repairs = (w.state.counts u).repairs
      ∧ ((w.state.settledState p b).counts u).queued = (w.state.counts u).queued
      ∧ ((w.state.settledState p b).counts u).learning = (w.state.counts u).learning
      ∧ ((w.state.settledState p b).counts u).pins + w.held.touches u
        = (w.state.counts u).pins := by
  have hprep := h.prepared_of hp
  obtain ⟨hin, hout⟩ := h.counts_settled (b := b) hp
  by_cases hu : u ∈ p.tenants.map TenantChange.tenant
  · obtain ⟨t, ht, rfl⟩ := List.mem_map.mp hu
    have htouches : w.held.touches t.tenant = 1 := by
      unfold Held.touches
      rw [hp]
      exact List.count_eq_one_of_mem hprep.tenants hu
    have hpins := (h.touched_counts hp ht).2
    rw [hin t ht, htouches]
    refine ⟨rfl, rfl, rfl, rfl, rfl, ?_⟩
    show decrement (w.state.counts t.tenant).pins + 1 = _
    rw [hpins, decrement_succ]
  · have hnone := hprep.untouched hu
    have htouches : w.held.touches u = 0 := by
      unfold Held.touches
      rw [hp]
      exact List.count_eq_zero_of_not_mem hu
    have hslots : stepCount (only u) w.state.slots p.steps = 0 :=
      stepCount_eq_zero (fun step hstep hq =>
        (amounts_of_unowned (b := b) (hnone step hstep hq)).1)
    have hleft : stepCount (only u) (w.state.leftover b) p.steps = 0 :=
      stepCount_eq_zero (fun step hstep hq => (amounts_of_unowned (hnone step hstep hq)).2.1)
    have hmoved : stepSum (only u) (Step.moved b) p.steps = 0 :=
      stepSum_eq_zero (fun step hstep hq =>
        (amounts_of_unowned (s := w.state) (hnone step hstep hq)).2.2.2)
    rw [hout u hu, hslots, hleft, hmoved, htouches]
    exact ⟨rfl, by omega, rfl, rfl, rfl, rfl⟩

/-- A count that is cached after the outcome has moved by the obligations of its
tenant. -/
theorem cached_outcome {u : TenantId} {n : ℕ}
    (hn : ((w.state.settledState p b).counts u).unknown = some n) :
    ∃ m, (w.state.counts u).unknown = some m
      ∧ (n : ℤ) = m + stepSum (only u) (Step.recorded b) p.steps ∧ n < 2 ^ 64 := by
  have hprep := h.prepared_of hp
  obtain ⟨hin, hout⟩ := h.counts_settled (b := b) hp
  by_cases hu : u ∈ p.tenants.map TenantChange.tenant
  · obtain ⟨t, ht, rfl⟩ := List.mem_map.mp hu
    rw [hin t ht] at hn
    cases hm : (w.state.counts t.tenant).unknown with
    | none =>
      have hnone : (State.settledCounts (w.state.counts t.tenant)
          (w.state.outcome p b t)).unknown = none := by
        show (w.state.counts t.tenant).unknown.map _ = none
        rw [hm]
        rfl
      exact absurd (hnone.symm.trans hn) (by simp)
    | some m =>
      have hsome : (State.settledCounts (w.state.counts t.tenant)
          (w.state.outcome p b t)).unknown
          = some ((m : ℤ) + stepSum (only t.tenant) (Step.recorded b) p.steps).toNat := by
        show (w.state.counts t.tenant).unknown.map _ = _
        rw [hm]
        rfl
      obtain rfl := Option.some.inj (hsome.symm.trans hn)
      obtain ⟨hlow, hhigh⟩ := hprep.cached_adjust (b := b) h.bounded ht hm
      exact ⟨m, rfl, by omega, by omega⟩
  · rw [hout u hu] at hn
    refine ⟨n, hn, ?_, h.bounded.cached u n hn⟩
    have hzero : stepSum (only u) (Step.recorded b) p.steps = 0 := by
      refine stepSum_eq_zero (fun step hstep hq => ?_)
      have hmem := hprep.touched step hstep (Or.inr (by rw [of_decide_eq_true hq, hn]; rfl))
      rw [of_decide_eq_true hq] at hmem
      exact absurd hmem hu
    omega

/-- **The books after the outcome.** -/
theorem settledState :
    Kept { w with
      state := w.state.settledState p b
      held := { w.held with publication := none } } := by
  have hprep := h.prepared_of hp
  have hcustody : custody (w.state.settledState p b) { w.held with publication := none }
      = (custody w.state w.held).settled b p := State.custody_settleWith _ _ _
  have hsound := hprep.sound_settled (b := b) h.sound
  have hcounts := h.counts_outcome (b := b) hp
  have hactive : (w.state.settledState p b).active
      = w.state.active - stepCount everyone w.state.slots p.steps := State.settledState_active
  have hqueue : (w.state.settledState p b).queue = w.state.queue := State.settleWith_queue
  have hreceipts : (w.state.settledState p b).receipts
      = { w.state.receipts with totals := w.state.outcomeTotals p b } :=
    State.settledState_receipts
  have hlearning : (w.state.settledState p b).learning = w.state.learning :=
    State.settleWith_learning
  obtain ⟨hingress, hbytes⟩ : (w.state.settledState p b).ingress = w.state.ingress
      ∧ (w.state.settledState p b).ingressBytes = w.state.ingressBytes :=
    State.settleWith_ingress
  have hopen : (w.state.settledState p b).publicationPending = none := rfl
  have hcached := fun u n => h.cached_outcome (b := b) hp (u := u) (n := n)
  have hcharged : Charged (w.state.settledState p b).counts
      (w.state.active - stepCount everyone w.state.slots p.steps)
      (w.state.outcomeTotals p b) ((custody w.state w.held).settled b p) := by
    have hloads := fun q => h.loads_settled (b := b) hp q
    have hrepairs := settled_repairs (c := custody w.state w.held) (p := p) (b := b)
    have huncovered : (w.state.outcomeTotals p b).uncovered
        = ((w.state.receipts.totals.uncovered : ℤ) + stepSum everyone (Step.moved b) p.steps
          - stepCount everyone (w.state.leftover b) p.steps).toNat := rfl
    have hlive : (w.state.outcomeTotals p b).live
        = w.state.receipts.totals.live - stepCount everyone (w.state.freed b) p.steps := rfl
    have hreserved : (w.state.outcomeTotals p b).reserved = w.state.receipts.totals.reserved
        - stepCount everyone (w.state.freed b) p.steps * reservation :=
      State.outcomeTotals_reserved
    have hrows : (w.state.outcomeTotals p b).repairLive
          = w.state.receipts.totals.repairLive
        ∧ (w.state.outcomeTotals p b).repairReserved
          = w.state.receipts.totals.repairReserved := withOutcome_repairs _ _ _ _ _ _
    generalize w.state.outcomeTotals p b = totals at huncovered hlive hreserved hrows ⊢
    exact h.books.charged.settled (fun q => (hloads q).1) (fun q => (hloads q).2.1)
      (fun q => (hloads q).2.2.1) (fun q => (hloads q).2.2.2.1) hrepairs
      (hloads everyone).2.2.2.2.2 (fun u => ⟨(hcounts u).1, (hcounts u).2.1, (hcounts u).2.2.1⟩)
      huncovered hlive hreserved hrows
  have hunknown : (w.state.outcomeTotals p b).unknown < 2 ^ 64 := by
    obtain ⟨hlow, hhigh⟩ := hprep.unknown_adjust (b := b) h.bounded
    show ((w.state.receipts.totals.unknown : ℤ)
      + stepSum everyone (Step.recorded b) p.steps).toNat < 2 ^ 64
    omega
  have hreserved : (w.state.outcomeTotals p b).reserved < 2 ^ 64 := by
    exact lt_of_le_of_lt (Nat.sub_le _ _) h.bounded.reserved
  generalize w.state.outcomeTotals p b = totals at hreceipts hcharged hunknown hreserved
  generalize w.state.settledState p b = s' at *
  refine
    { sound := hcustody ▸ hsound
      books :=
        { charged := ?_
          queued := fun u => ?_
          pins := fun u => ?_
          learning := fun u => ((hcounts u).2.2.2.2.1).trans (h.books.learning u)
          allLearning := hlearning.trans h.books.allLearning
          ingress := hingress.trans h.books.ingress
          ingressBytes := hbytes.trans h.books.ingressBytes }
      bounded :=
        { active := ?_
          reserved := ?_
          unknown := ?_
          cached := fun u n hn => ?_ }
      pending := ?_
      lines :=
        { queue_nodup := hqueue ▸ h.lines.queue_nodup
          task_nodup := h.lines.task_nodup
          task_lt := h.lines.task_lt
          caller := hqueue ▸ h.lines.caller } }
  · show Charged s'.counts s'.active s'.receipts.totals
      (custody s' { w.held with publication := none })
    rw [hcustody, hreceipts, hactive]
    exact hcharged
  · show (s'.counts u).queued = s'.queue.countP _
    rw [(hcounts u).2.2.2.1, hqueue]
    exact h.books.queued u
  · have hpins := h.books.pins u
    have hsum := (hcounts u).2.2.2.2.2
    have hnone : ({ w.held with publication := none } : Held).touches u = 0 := rfl
    show (s'.counts u).pins = w.held.pins.count u
    omega
  · show s'.active ≤ _
    rw [hactive]
    exact le_trans (Nat.sub_le _ _) h.bounded.active
  · show s'.receipts.totals.reserved < _
    rw [hreceipts]
    exact hreserved
  · show s'.receipts.totals.unknown < _
    rw [hreceipts]
    exact hunknown
  · obtain ⟨m, -, -, hlt⟩ := hcached u n hn
    exact hlt
  · unfold Pending
    refine ⟨hopen, fun k live hk => Bool.eq_false_iff.mpr (fun hlive => ?_)⟩
    have hk' : ((custody w.state w.held).settled b p).entries[k]? = some live := by
      rw [← hcustody]
      exact hk
    obtain ⟨hold, hfree⟩ := h.sound.pending_settleAll hprep.keys hprep.claims hk' hlive
    obtain ⟨step, hstep, hsome, hkey⟩ := hprep.pending k live hold hlive
    exact hfree step hstep hsome hkey

end

theorem idleAll (h : Kept w) (ts : List TenantChange) :
    Kept { w with state := ts.foldl (fun s t => s.idle t.tenant) w.state } := by
  induction ts generalizing w with
  | nil => exact h
  | cons t ts ih => exact ih (h.idle t.tenant)

/-- **A publication is consumed from every state that keeps the invariant.** -/
theorem finishPublication (h : Kept w) (hp : w.held.publication = some p)
    (hfence : w.state.receipts.fenced = false) :
    w.state.finishPublication p b
        = .ok ((p.tenants.map (w.state.outcome p b)).foldl (fun s t => s.idle t.tenant)
          (w.state.settledState p b))
      ∧ Kept { w with
          state := (p.tenants.map (w.state.outcome p b)).foldl
            (fun s t => s.idle t.tenant) (w.state.settledState p b)
          held := { w.held with publication := none } } := by
  have hprep := h.prepared_of hp
  exact ⟨State.finishPublication_eq hfence hprep.generation hprep.token (h.calculate_ok hp),
    (h.settledState hp).idleAll _⟩

end Kept

end BitRouter.Admission
