import BitRouter.Admission.Publish

/-!
# Preparing a publication

What a successful `prepareUnknown` has established. The steps it is given
name every obligation once; each has claimed the entry of its owner or has
none; the tenants it answers are those that have counts, with the sums of
their steps. `Kept.prepareUnknown` puts this together: a controller that
prepares a publication keeps the invariant, and `Prepared` holds of it.
-/

namespace BitRouter.Admission

open Tenancy
open Receipts (Totals)

/-! ## The steps before the lock -/

/-- A matched list of steps names no key twice, none that has been seen, and
has claimed nothing yet. -/
theorem matchSteps_spec {changes : List Change} {seen : List Key} {terminals rest : List Terminal}
    {steps : List Step} (h : matchSteps changes seen terminals = .ok (steps, rest)) :
    (steps.map Step.key).Nodup ∧ ∀ step ∈ steps, step.key ∉ seen ∧ step.owner = none := by
  induction changes generalizing seen terminals rest steps with
  | nil =>
    obtain ⟨rfl, -⟩ := Prod.mk.inj (Except.ok.inj h)
    exact ⟨List.nodup_nil, fun step hstep => absurd hstep List.not_mem_nil⟩
  | cons change changes ih =>
    obtain ⟨_, hfresh, h⟩ := bind_eq_ok.mp h
    obtain ⟨⟨steps', rest'⟩, hrest, h⟩ := bind_eq_ok.mp h
    obtain ⟨rfl, -⟩ := Prod.mk.inj (pure_eq_ok.mp h)
    obtain ⟨hnodup, hsteps⟩ := ih hrest
    refine ⟨List.nodup_cons.mpr ⟨fun hmem => ?_, hnodup⟩, ?_⟩
    · obtain ⟨step, hstep, hkey⟩ := List.mem_map.mp hmem
      exact (hsteps step hstep).1 (hkey ▸ List.mem_cons_self)
    · refine List.forall_mem_cons.mpr ⟨⟨(ensure_eq_ok.mp hfresh).1, rfl⟩, fun step hstep => ?_⟩
      exact ⟨fun hmem => (hsteps step hstep).1 (List.mem_cons_of_mem _ hmem),
        (hsteps step hstep).2⟩

theorem readSteps_spec {changes : List Change} {terminals : List Terminal} {steps : List Step}
    (h : readSteps changes terminals = .ok steps) :
    (steps.map Step.key).Nodup ∧ ∀ step ∈ steps, step.owner = none := by
  obtain ⟨_, -, h⟩ := bind_eq_ok.mp h
  obtain ⟨⟨steps', rest⟩, hmatch, h⟩ := bind_eq_ok.mp h
  obtain ⟨_, -, h⟩ := bind_eq_ok.mp h
  obtain rfl := pure_eq_ok.mp h
  obtain ⟨hnodup, hsteps⟩ := matchSteps_spec hmatch
  exact ⟨hnodup, fun step hstep => (hsteps step hstep).2⟩

/-! ## The claims -/

/-- **A claimed step**: it acts on the owner of its entry, or on none. -/
structure Step.Taken (s : State) (step : Step) : Prop where
  live : ∀ owner, step.owner = some owner → ∃ live : Live, s.executions[step.key]? = some live
    ∧ live.owner = owner ∧ (s.completions owner).done = false ∧ live.pending = false
    ∧ live.covered = step.before ∧ (live.repair = true → step.terminal = none)

theorem claimStep_eq_ok {s : State} {step step' : Step} {delta : ℤ}
    (hnew : step.owner = none) (h : claimStep s step = .ok (step', delta)) :
    step'.key = step.key ∧ delta = step'.opening ∧ step'.Taken s := by
  unfold claimStep at h
  have hidle : step.opening = 0 ∧ step.Taken s := by
    refine ⟨by simp [Step.opening, hnew], ⟨fun owner howner => ?_⟩⟩
    exact absurd (hnew.symm.trans howner) (by simp)
  cases hlive : s.executions[step.key]? with
  | none =>
    rw [hlive] at h
    obtain ⟨_, -, h⟩ := bind_eq_ok.mp h
    obtain ⟨rfl, rfl⟩ := Prod.mk.inj (pure_eq_ok.mp h)
    exact ⟨rfl, hidle.1.symm, hidle.2⟩
  | some live =>
    rw [hlive] at h
    dsimp only at h
    by_cases hdone : (s.completions live.owner).done = true
    · rw [if_pos hdone] at h
      obtain ⟨_, -, h⟩ := bind_eq_ok.mp h
      obtain ⟨rfl, rfl⟩ := Prod.mk.inj (pure_eq_ok.mp h)
      exact ⟨rfl, hidle.1.symm, hidle.2⟩
    · rw [if_neg hdone] at h
      obtain ⟨_, hfree, h⟩ := bind_eq_ok.mp h
      obtain ⟨rfl, rfl⟩ := Prod.mk.inj (pure_eq_ok.mp h)
      obtain ⟨hpending, hcovered, hrepair⟩ : live.pending = false ∧ live.covered = step.before
          ∧ (live.repair = true → step.terminal = none) := by
        have hfree' := ensure_eq_ok.mp hfree
        refine ⟨by simpa using fun hp => hfree' (Or.inl hp), ?_, fun hr => ?_⟩
        · by_contra hne
          exact hfree' (Or.inr (Or.inl hne))
        · by_contra hne
          exact hfree' (Or.inr (Or.inr ⟨hr, Option.isSome_iff_ne_none.mpr hne⟩))
      refine ⟨rfl, rfl, ⟨fun owner howner => ?_⟩⟩
      obtain rfl := Option.some.inj howner
      exact ⟨live, hlive, rfl, by simpa using hdone, hpending, hcovered, hrepair⟩

/-- **All claims**: they keep the keys, and each carries its opening. -/
theorem claims_spec {s : State} {steps : List Step} {claims : List (Step × ℤ)}
    (hnew : ∀ step ∈ steps, step.owner = none) (h : steps.mapM (claimStep s) = .ok claims) :
    claims.map (fun c => c.1.key) = steps.map Step.key
      ∧ ∀ c ∈ claims, c.2 = c.1.opening ∧ c.1.Taken s := by
  have hall := mapM_eq_ok.mp h
  clear h
  induction hall with
  | nil => exact ⟨rfl, fun c hc => absurd hc List.not_mem_nil⟩
  | cons hclaim _ ih =>
    obtain ⟨hhead, hrest⟩ := List.forall_mem_cons.mp hnew
    obtain ⟨hkey, hdelta, htaken⟩ := claimStep_eq_ok hhead hclaim
    obtain ⟨hkeys, hclaims⟩ := ih hrest
    exact ⟨by rw [List.map_cons, List.map_cons, hkeys, hkey],
      List.forall_mem_cons.mpr ⟨⟨hdelta, htaken⟩, hclaims⟩⟩

/-! ## The tenants of the claims -/

/-- One claim of `tenantDeltas`. -/
def addDelta (deltas : Std.TreeMap TenantId (ℤ × ℤ)) (c : Step × ℤ) :
    Std.TreeMap TenantId (ℤ × ℤ) :=
  let old := (deltas[c.1.key.tenant]?).getD (0, 0)
  deltas.insert c.1.key.tenant (old.1 + c.1.durable, old.2 + c.2)

section

variable {claims : List (Step × ℤ)} (hclaims : ∀ c ∈ claims, c.2 = c.1.opening)

include hclaims

/-- **The sums of a tenant**, for any sums to begin with. -/
theorem foldl_addDelta (deltas : Std.TreeMap TenantId (ℤ × ℤ)) (t : TenantId) :
    (claims.foldl addDelta deltas)[t]?
      = if (∃ c ∈ claims, c.1.key.tenant = t) ∨ (deltas[t]?).isSome then
          some (((deltas[t]?).getD (0, 0)).1
              + stepSum (only t) Step.durable (claims.map Prod.fst),
            ((deltas[t]?).getD (0, 0)).2 + stepSum (only t) Step.opening (claims.map Prod.fst))
        else none := by
  induction claims generalizing deltas with
  | nil =>
    cases hget : deltas[t]? with
    | none => simp [hget]
    | some old => simp [hget]
  | cons c claims ih =>
    obtain ⟨hdelta, hrest⟩ := List.forall_mem_cons.mp hclaims
    rw [List.foldl_cons, ih hrest, List.map_cons, stepSum_cons, stepSum_cons]
    have hget : (addDelta deltas c)[t]? = if c.1.key.tenant = t then
        some (((deltas[t]?).getD (0, 0)).1 + c.1.durable,
          ((deltas[t]?).getD (0, 0)).2 + c.1.opening)
        else deltas[t]? := by
      unfold addDelta
      rw [Std.TreeMap.getElem?_insert]
      by_cases ht : c.1.key.tenant = t
      · subst ht
        simp [hdelta]
      · rw [if_neg (by rwa [Std.LawfulEqOrd.compare_eq_iff_eq]), if_neg ht]
    rw [hget]
    by_cases ht : c.1.key.tenant = t
    · subst ht
      simp [add_assoc]
    · have hother : only t c.1.key.tenant = false := decide_eq_false ht
      simp only [List.exists_mem_cons_iff, ht, hother, if_false, false_or, Bool.false_eq_true,
        zero_add]

theorem tenantDeltas_get {t : TenantId} {d u : ℤ} (h : (tenantDeltas claims)[t]? = some (d, u)) :
    (∃ c ∈ claims, c.1.key.tenant = t)
      ∧ d = stepSum (only t) Step.durable (claims.map Prod.fst)
      ∧ u = stepSum (only t) Step.opening (claims.map Prod.fst) := by
  have hfold := foldl_addDelta hclaims ∅ t
  rw [show claims.foldl addDelta ∅ = tenantDeltas claims from rfl, h] at hfold
  split at hfold
  · next hor =>
    obtain ⟨rfl, rfl⟩ := Prod.mk.inj (Option.some.inj hfold)
    exact ⟨hor.resolve_right (by simp), by simp, by simp⟩
  · exact absurd hfold (by simp)

theorem tenantDeltas_isSome {c : Step × ℤ} (hc : c ∈ claims) :
    ((tenantDeltas claims)[c.1.key.tenant]?).isSome := by
  have hfold := foldl_addDelta hclaims ∅ c.1.key.tenant
  rw [show claims.foldl addDelta ∅ = tenantDeltas claims from rfl,
    if_pos (Or.inl ⟨c, hc, rfl⟩)] at hfold
  rw [hfold]
  rfl

end

/-- **The touched tenants** are those of the list that have counts. -/
theorem touchedTenants_eq {s : State} {l : List (TenantId × ℤ × ℤ)} {tenants : List TenantChange}
    (h : touchedTenants s l = .ok tenants) :
    tenants = (l.filter (fun e => (s.tenants[e.1]?).isSome)).map
        (fun e => { tenant := e.1, durable := e.2.1, uncovered := e.2.2 })
      ∧ ∀ e ∈ l, (s.tenants[e.1]?).isSome → (s.counts e.1).pins + 1 < 2 ^ 64 := by
  induction l generalizing tenants with
  | nil =>
    obtain rfl := Except.ok.inj h
    exact ⟨rfl, fun e he => absurd he List.not_mem_nil⟩
  | cons e l ih =>
    obtain ⟨t, d, u⟩ := e
    unfold touchedTenants at h
    cases hget : s.tenants[t]? with
    | none =>
      rw [hget] at h
      obtain ⟨_, -, h⟩ := bind_eq_ok.mp h
      obtain ⟨htenants, hpins⟩ := ih h
      refine ⟨?_, List.forall_mem_cons.mpr ⟨fun hsome => ?_, hpins⟩⟩
      · rw [List.filter_cons_of_neg (by simp [hget]), htenants]
      · exact absurd hsome (by simp [hget])
    | some c =>
      rw [hget] at h
      obtain ⟨n, hn, h⟩ := bind_eq_ok.mp h
      obtain ⟨rest, hrest, h⟩ := bind_eq_ok.mp h
      obtain ⟨htenants, hpins⟩ := ih hrest
      obtain rfl := pure_eq_ok.mp h
      refine ⟨?_, List.forall_mem_cons.mpr ⟨fun _ => ?_, hpins⟩⟩
      · rw [List.filter_cons_of_pos (by simp [hget]), List.map_cons, htenants]
      · rw [State.counts_of_get hget]
        exact (Receipts.checkedAdd_eq_some.mp (orFail_eq_ok.mp hn)).1

/-! ## What the checks of `calculate` have established -/

variable {finished : Bool}

theorem openTenant_eq_ok {s : State} {t t' : TenantChange}
    (h : openTenant s finished false t = .ok t') :
    (t'.tenant, t'.durable, t'.uncovered) = (t.tenant, t.durable, t.uncovered)
      ∧ ∀ n, (s.counts t.tenant).unknown = some n →
        0 ≤ n + t.durable ∧ n + t.durable < 2 ^ 64 := by
  obtain ⟨c, hget, h⟩ := bind_eq_ok.mp h
  obtain ⟨_, -, h⟩ := bind_eq_ok.mp h
  rw [State.counts_of_get (orFail_eq_ok.mp hget)]
  cases hunknown : c.unknown with
  | none =>
    rw [hunknown] at h
    obtain ⟨_, -, h⟩ := bind_eq_ok.mp h
    obtain ⟨_, -, h⟩ := bind_eq_ok.mp h
    obtain rfl := pure_eq_ok.mp h
    exact ⟨rfl, fun n hn => absurd hn (by simp)⟩
  | some m =>
    rw [hunknown] at h
    obtain ⟨next, hnext, h⟩ := bind_eq_ok.mp h
    obtain ⟨_, -, h⟩ := bind_eq_ok.mp h
    obtain ⟨_, -, h⟩ := bind_eq_ok.mp h
    obtain rfl := pure_eq_ok.mp h
    refine ⟨rfl, fun n hn => ?_⟩
    obtain rfl := Option.some.inj hn
    obtain ⟨hlow, hhigh, -⟩ := adjust_eq_ok hnext
    exact ⟨hlow, hhigh⟩

variable {ts : List TenantChange}

section

variable {ts' : List TenantChange} {s : State}
  (h : List.Forall₂ (fun t t' => openTenant s finished false t = .ok t') ts ts')

include h

theorem openTenants_keep :
    ts'.map (fun c => (c.tenant, c.durable, c.uncovered))
      = ts.map (fun c => (c.tenant, c.durable, c.uncovered)) := by
  induction h with
  | nil => rfl
  | cons hhead _ ih => rw [List.map_cons, List.map_cons, ih, (openTenant_eq_ok hhead).1]

theorem openTenants_cached :
    ∀ t ∈ ts, ∀ n, (s.counts t.tenant).unknown = some n →
      0 ≤ n + t.durable ∧ n + t.durable < 2 ^ 64 := by
  induction h with
  | nil => exact fun t ht => absurd ht List.not_mem_nil
  | cons hhead _ ih => exact List.forall_mem_cons.mpr ⟨(openTenant_eq_ok hhead).2, ih⟩

end

/-- A prepared publication has passed `calculate`: its sums fit. -/
theorem Publication.calculate_fits {p : Publication} {s : State} {tenants : List TenantChange}
    {totals : Totals} {active : ℕ} (h : p.calculate s false = .ok (tenants, totals, active)) :
    s.unknownGeneration + 1 < 2 ^ 64
      ∧ tenants.map (fun c => (c.tenant, c.durable, c.uncovered))
        = p.tenants.map (fun c => (c.tenant, c.durable, c.uncovered))
      ∧ (∀ t ∈ p.tenants, ∀ n, (s.counts t.tenant).unknown = some n →
          0 ≤ n + t.durable ∧ n + t.durable < 2 ^ 64)
      ∧ (0 ≤ s.receipts.totals.unknown + stepSum everyone Step.durable p.steps
        ∧ s.receipts.totals.unknown + stepSum everyone Step.durable p.steps < 2 ^ 64)
      ∧ s.receipts.totals.bytes + (p.steps.map Step.charge).sum < 2 ^ 64 := by
  obtain ⟨_, hgeneration, h⟩ := bind_eq_ok.mp h
  obtain ⟨opened, hopened, h⟩ := bind_eq_ok.mp h
  obtain ⟨t, ht, h⟩ := bind_eq_ok.mp h
  obtain ⟨totals', htotals, h⟩ := bind_eq_ok.mp h
  obtain ⟨rfl, -⟩ := Prod.mk.inj (pure_eq_ok.mp h)
  obtain ⟨hdurable, hbytes, htenants⟩ := Tally.countAll_keeps ht
  have hall := mapM_eq_ok.mp hopened
  refine ⟨(Receipts.checkedAdd_eq_some.mp (orFail_eq_ok.mp hgeneration)).1,
    htenants.trans (openTenants_keep hall), openTenants_cached hall, ?_, ?_⟩
  · unfold Tally.totals at htotals
    obtain ⟨unknown, hunknown, -⟩ := bind_eq_ok.mp htotals
    obtain ⟨hlow, hhigh, -⟩ := adjust_eq_ok hunknown
    rw [hdurable, zero_add] at hlow hhigh
    exact ⟨hlow, hhigh⟩
  · unfold Tally.totals at htotals
    simp only [bind_eq_ok, orFail_eq_ok, Receipts.checkedAdd_eq_some] at htotals
    obtain ⟨_, -, _, -, _, -, _, -, _, -, _, ⟨hfits, -⟩, -⟩ := htotals
    rwa [hbytes, zero_add] at hfits

/-! ## The state of a prepared publication -/

namespace State

variable {s s' : State} {o : Held} {p : Publication}

/-- The publication that `prepareUnknown` computes with. -/
def drafted (read : Read) (token : ℕ) (claims : List (Step × ℤ)) (tenants : List TenantChange) :
    Publication where
  token := token
  generation := read.generation
  steps := claims.map Prod.fst
  tenants := tenants
  finished := true

theorem prepareUnknown_eq_ok {read : Read} {steps : List Step} {token : ℕ}
    (h : s.prepareUnknown read steps token = .ok (p, s')) :
    s.publicationPending = none ∧ s.unknownGeneration = read.generation
      ∧ s.receipts.fenced = false
      ∧ ∃ claims touched tenants totals active, steps.mapM (claimStep s) = .ok claims
        ∧ touchedTenants s (tenantDeltas claims).toList = .ok touched
        ∧ (drafted read token claims touched).calculate s false = .ok (tenants, totals, active)
        ∧ p = { drafted read token claims touched with tenants := tenants, finished := false }
        ∧ s' = { (claims.map Prod.fst).foldl markPending (tenants.foldl pinTouched s) with
            publicationPending := some token } := by
  obtain ⟨_, hread, h⟩ := bind_eq_ok.mp h
  obtain ⟨_, hfence, h⟩ := bind_eq_ok.mp h
  obtain ⟨claims, hclaims, h⟩ := bind_eq_ok.mp h
  obtain ⟨touched, htouched, h⟩ := bind_eq_ok.mp h
  obtain ⟨⟨tenants, totals, active⟩, hcalculate, h⟩ := bind_eq_ok.mp h
  obtain ⟨rfl, rfl⟩ := Prod.mk.inj (pure_eq_ok.mp h)
  obtain ⟨hopen, hgeneration⟩ := ensure_eq_ok.mp hread
  exact ⟨hopen, hgeneration, ensure_eq_ok.mp hfence, claims, touched, tenants, totals, active,
    hclaims, htouched, hcalculate, rfl, rfl⟩

theorem pinAll_eq (ts : List TenantChange) :
    ts.foldl pinTouched s = { s with tenants := (ts.foldl pinTouched s).tenants } := by
  induction ts generalizing s with
  | nil => rfl
  | cons t ts ih =>
    rw [List.foldl_cons, ih]
    have hone : s.pinTouched t = { s with tenants := (s.pinTouched t).tenants } := by
      unfold pinTouched
      split <;> rfl
    rw [hone]

/-- **The pins of a publication**: one on every touched tenant. -/
theorem pinAll_counts (hnodup : (ts.map TenantChange.tenant).Nodup)
    (hget : ∀ t ∈ ts, s.tenants[t.tenant]? = some (s.counts t.tenant)) (u : TenantId) :
    (ts.foldl pinTouched s).counts u = { s.counts u with
      pins := (s.counts u).pins + (ts.map TenantChange.tenant).count u } := by
  induction ts generalizing s with
  | nil => rfl
  | cons t ts ih =>
    obtain ⟨hnotin, hnodup'⟩ := List.nodup_cons.mp hnodup
    obtain ⟨hhead, hrest⟩ := List.forall_mem_cons.mp hget
    have hone : s.pinTouched t
        = s.setCounts t.tenant { s.counts t.tenant with pins := (s.counts t.tenant).pins + 1 } := by
      unfold pinTouched
      rw [hhead]
    have hkeep : ∀ x ∈ ts, (s.pinTouched t).tenants[x.tenant]?
        = some ((s.pinTouched t).counts x.tenant) := by
      intro x hx
      have hne : x.tenant ≠ t.tenant := fun heq => hnotin (heq ▸ List.mem_map_of_mem hx)
      rw [hone, counts_setCounts_ne hne]
      show (s.tenants.insert t.tenant _)[x.tenant]? = _
      rw [Std.TreeMap.getElem?_insert,
        if_neg (by rw [Std.LawfulEqOrd.compare_eq_iff_eq]; exact Ne.symm hne)]
      exact hrest x hx
    rw [List.foldl_cons, ih hnodup' hkeep, hone, counts_setCounts, List.map_cons, List.count_cons]
    by_cases hu : u = t.tenant
    · subst hu
      have hzero : (ts.map TenantChange.tenant).count t.tenant = 0 :=
        List.count_eq_zero_of_not_mem hnotin
      simp [hzero]
    · simp [hu, Ne.symm hu]

theorem markAll_eq (steps : List Step) :
    steps.foldl markPending s
        = { s with executions := (steps.foldl markPending s).executions } := by
  induction steps generalizing s with
  | nil => rfl
  | cons step steps ih =>
    rw [List.foldl_cons, ih]
    have hone : s.markPending step
        = { s with executions := (s.markPending step).executions } := by
      unfold markPending
      split <;> rfl
    rw [hone]

theorem custody_markAll (steps : List Step) :
    custody (steps.foldl markPending s) o
      = steps.foldl Custody.markPending (custody s o) := by
  induction steps generalizing s with
  | nil => rfl
  | cons step steps ih =>
    rw [List.foldl_cons, List.foldl_cons, ih]
    congr 1
    have hentries : (custody s o).entries = s.executions := rfl
    unfold markPending Custody.markPending
    rw [hentries]
    cases step.owner with
    | none => rfl
    | some id => cases s.executions[step.key]? <;> rfl

def claimed (s : State) (p : Publication) : State :=
  { p.steps.foldl markPending (p.tenants.foldl pinTouched s) with
    publicationPending := some p.token }

theorem claimed_eq : s.claimed p = { s with
    tenants := (p.tenants.foldl pinTouched s).tenants
    executions := (s.claimed p).executions
    publicationPending := some p.token } := by
  unfold claimed
  rw [markAll_eq, pinAll_eq]

theorem claimed_counts (hnodup : (p.tenants.map TenantChange.tenant).Nodup)
    (hget : ∀ t ∈ p.tenants, s.tenants[t.tenant]? = some (s.counts t.tenant)) (u : TenantId) :
    (s.claimed p).counts u = { s.counts u with
      pins := (s.counts u).pins + (p.tenants.map TenantChange.tenant).count u } := by
  rw [← pinAll_counts hnodup hget u, claimed_eq]
  rfl

theorem custody_claimed :
    custody (s.claimed p) o = p.steps.foldl Custody.markPending (custody s o) := by
  have hpins : custody (p.tenants.foldl pinTouched s) o = custody s o := by
    rw [pinAll_eq]
    rfl
  rw [← hpins, ← custody_markAll]
  rfl

end State

namespace Kept

variable {w : World}

theorem counts_of_entry (h : Kept w) {k : Key} {live : Live}
    (hk : w.state.executions[k]? = some live) (hpending : live.pending = false) :
    w.state.tenants[k.tenant]? = some (w.state.counts k.tenant) := by
  refine State.get_of_counts_ne (fun hnone => ?_)
  have hc := h.books.charged
  have hactive := hc.active k.tenant
  have hrepairs := hc.repairs k.tenant
  rw [hnone] at hactive hrepairs
  by_cases hr : live.repair = true
  · have hle := Custody.share_le_load (c := custody w.state w.held) (p := only k.tenant)
      (κ := .repair) hk
    rw [← hrepairs] at hle
    simp [Custody.entryShare, Live.share, hr] at hle
  · have hd : live.dropped = false := by
      by_contra hne
      obtain ⟨hp, -⟩ := h.sound.dropped k live hk (by simpa using hne)
      exact absurd (hp.symm.trans hpending) (by simp)
    have hlease := h.sound.held k live hk (by simpa using hr) hd
    have hle := Custody.leaseShare_le_load (p := only k.tenant) (κ := .active) hlease
    rw [← hactive] at hle
    simp [Custody.leaseShare, Completion.share] at hle

variable {read : Read} {steps : List Step} {token : ℕ} {claims : List (Step × ℤ)}
  {touched : List TenantChange}

/-- **The touched tenants of a publication.** -/
theorem touched_spec (h : Kept w) (hclaims : ∀ c ∈ claims, c.2 = c.1.opening ∧ c.1.Taken w.state)
    (htouched : touchedTenants w.state (tenantDeltas claims).toList = .ok touched) :
    (touched.map TenantChange.tenant).Nodup
      ∧ (∀ t ∈ touched, w.state.tenants[t.tenant]? = some (w.state.counts t.tenant)
        ∧ t.durable = stepSum (only t.tenant) Step.durable (claims.map Prod.fst)
        ∧ t.uncovered = stepSum (only t.tenant) Step.opening (claims.map Prod.fst))
      ∧ ∀ c ∈ claims, c.1.owner.isSome ∨ (w.state.counts c.1.key.tenant).unknown.isSome →
          c.1.key.tenant ∈ touched.map TenantChange.tenant := by
  have hopening := fun c hc => (hclaims c hc).1
  obtain ⟨htenants, -⟩ := touchedTenants_eq htouched
  have hnames : touched.map TenantChange.tenant
      = ((tenantDeltas claims).toList.filter
          (fun e => (w.state.tenants[e.1]?).isSome)).map Prod.fst := by
    rw [htenants, List.map_map]
    rfl
  refine ⟨?_, fun t ht => ?_, fun c hc hor => ?_⟩
  · rw [hnames]
    refine List.pairwise_map.mpr (List.Pairwise.filter _ ?_)
    exact (Std.TreeMap.distinct_keys_toList (t := tenantDeltas claims)).imp
      (fun hab heq => hab (by rw [heq]; exact Std.ReflOrd.compare_self))
  · rw [htenants] at ht
    obtain ⟨⟨x, d, u⟩, he, rfl⟩ := List.mem_map.mp ht
    obtain ⟨hmem, hsome⟩ := List.mem_filter.mp he
    have hget := Std.TreeMap.mem_toList_iff_getElem?_eq_some.mp hmem
    obtain ⟨-, hd, hu⟩ := tenantDeltas_get hopening hget
    obtain ⟨counts, hcounts⟩ := Option.isSome_iff_exists.mp hsome
    exact ⟨hcounts.trans (congrArg some (State.counts_of_get hcounts).symm), hd, hu⟩
  · obtain ⟨⟨d, u⟩, hget⟩ := Option.isSome_iff_exists.mp (tenantDeltas_isSome hopening hc)
    rw [hnames]
    refine List.mem_map.mpr ⟨(c.1.key.tenant, d, u), List.mem_filter.mpr
      ⟨Std.TreeMap.mem_toList_iff_getElem?_eq_some.mpr hget, ?_⟩, rfl⟩
    have hcounts : w.state.tenants[c.1.key.tenant]?
        = some (w.state.counts c.1.key.tenant) := by
      rcases hor with howner | hunknown
      · obtain ⟨owner, howner⟩ := Option.isSome_iff_exists.mp howner
        obtain ⟨live, hlive, -, -, hpending, -⟩ := (hclaims c hc).2.live owner howner
        exact h.counts_of_entry hlive hpending
      · refine State.get_of_counts_ne (fun hnone => ?_)
        rw [hnone] at hunknown
        exact absurd hunknown (by simp)
    show (w.state.tenants[c.1.key.tenant]?).isSome
    rw [hcounts]
    rfl

/-- What the checks of `prepareUnknown` have established about the publication
it answers. -/
structure Checked (w : World) (p : Publication) : Prop where
  unfinished : p.finished = false
  generation : w.state.unknownGeneration = p.generation
  counter : w.state.unknownGeneration + 1 < 2 ^ 64
  keys : (p.steps.map Step.key).Nodup
  taken : ∀ step ∈ p.steps, step.Taken w.state
  tenants : (p.tenants.map TenantChange.tenant).Nodup
  counted : ∀ t ∈ p.tenants, w.state.tenants[t.tenant]? = some (w.state.counts t.tenant)
  touched : ∀ step ∈ p.steps,
    step.owner.isSome ∨ (w.state.counts step.key.tenant).unknown.isSome →
      step.key.tenant ∈ p.tenants.map TenantChange.tenant
  durable : ∀ t ∈ p.tenants, t.durable = stepSum (only t.tenant) Step.durable p.steps
  uncovered : ∀ t ∈ p.tenants, t.uncovered = stepSum (only t.tenant) Step.opening p.steps
  cached : ∀ t ∈ p.tenants, ∀ n, (w.state.counts t.tenant).unknown = some n →
    0 ≤ n + t.durable ∧ n + t.durable < 2 ^ 64
  unknown : 0 ≤ w.state.receipts.totals.unknown + stepSum everyone Step.durable p.steps
    ∧ w.state.receipts.totals.unknown + stepSum everyone Step.durable p.steps < 2 ^ 64
  bytes : w.state.receipts.totals.bytes + (p.steps.map Step.charge).sum < 2 ^ 64

theorem Checked.claimed {p : Publication} (hp : Checked w p) {o : Held} :
    (custody (w.state.claimed p) o).Claims p.steps := by
  intro step hstep hsome
  obtain ⟨owner, howner⟩ := Option.isSome_iff_exists.mp hsome
  obtain ⟨live, hlive, hid, hdone, hpending, hcovered, hrepair⟩ :=
    (hp.taken step hstep).live owner howner
  rw [State.custody_claimed]
  have hmark : (p.steps.foldl Custody.markPending (custody w.state o)).entries[step.key]?
      = some { live with pending := true } := by
    rw [Custody.get_markAll, show (custody w.state o).entries[step.key]? = some live from hlive,
      Option.map_some, if_pos ⟨step, hstep, hsome, rfl⟩]
  refine ⟨{ live with pending := true }, hmark, howner.trans (congrArg some hid.symm), rfl,
    hcovered, ?_, hrepair⟩
  rw [Custody.markAll_eq]
  show (w.state.completions live.owner).done = false
  rw [hid]
  exact hdone

section

variable {p : Publication} (h : Kept w) (hp : Checked w p)
  (hopen : w.state.publicationPending = none)

include h hp hopen

theorem Checked.prepared (o : Held) :
    Prepared (w.state.claimed p) o p := by
  have hcounts := State.claimed_counts (s := w.state) hp.tenants hp.counted
  have hstate := State.claimed_eq (s := w.state) (p := p)
  refine
    { token := rfl
      unfinished := hp.unfinished
      generation := by rw [hstate]; exact hp.generation
      counter := by rw [hstate]; exact hp.counter
      keys := hp.keys
      claims := hp.claimed
      pending := fun k live hk hlive => ?_
      tenants := hp.tenants
      touched := fun step hstep hor => hp.touched step hstep ?_
      durable := hp.durable
      uncovered := hp.uncovered
      cached := fun t ht n hn => hp.cached t ht n ?_
      unknown := by rw [hstate]; exact hp.unknown
      bytes := by rw [hstate]; exact hp.bytes }
  · have hk' : (p.steps.foldl Custody.markPending (custody w.state o)).entries[k]?
        = some live := by
      rw [← State.custody_claimed]
      exact hk
    rw [Custody.get_markAll] at hk'
    obtain ⟨live₀, hlive₀, hmarked⟩ := Option.map_eq_some_iff.mp hk'
    by_contra hno
    rw [if_neg hno] at hmarked
    have hfree := (h.publication_none hopen).2 k live₀ hlive₀
    rw [hmarked, hlive] at hfree
    exact absurd hfree (by simp)
  · rwa [hcounts] at hor
  · rwa [hcounts] at hn

/-- **A prepared publication keeps the invariant.** -/
theorem Checked.kept :
    Kept { w with
      state := w.state.claimed p
      held := { w.held with nextId := w.held.nextId + 1, publication := some p } } := by
  have hcounts := State.claimed_counts (s := w.state) hp.tenants hp.counted
  have hstate := State.claimed_eq (s := w.state) (p := p)
  obtain ⟨hpub, -⟩ := h.publication_none hopen
  have hcustody : custody (w.state.claimed p)
      { w.held with nextId := w.held.nextId + 1, publication := some p }
      = { p.steps.foldl Custody.markPending (custody w.state w.held) with
          nextId := w.held.nextId + 1 } := by
    rw [← State.custody_claimed]
    rfl
  have hnext : (p.steps.foldl Custody.markPending (custody w.state w.held)).nextId
      = w.held.nextId := by rw [Custody.markAll_eq]; rfl
  refine
    { sound := ?_
      books :=
        { charged := ?_
          queued := fun t => ?_
          pins := fun t => ?_
          learning := fun t => ?_
          allLearning := by rw [hstate]; exact h.books.allLearning
          ingress := by rw [hstate]; exact h.books.ingress
          ingressBytes := by rw [hstate]; exact h.books.ingressBytes }
      bounded :=
        { active := by rw [hstate]; exact h.bounded.active
          reserved := by rw [hstate]; exact h.bounded.reserved
          unknown := by rw [hstate]; exact h.bounded.unknown
          cached := fun t n hn => h.bounded.cached t n (by rwa [hcounts] at hn) }
      pending := hp.prepared h hopen _
      lines := ?_ }
  · rw [hcustody]
    exact (h.sound.markAll p.steps).raise (by rw [hnext]; exact Nat.le_succ _)
  · have hslots : (w.state.claimed p).active = w.state.active
        ∧ (w.state.claimed p).receipts.totals = w.state.receipts.totals := by
      rw [hstate]
      exact ⟨rfl, rfl⟩
    show Charged _ (w.state.claimed p).active (w.state.claimed p).receipts.totals _
    rw [hslots.1, hslots.2, hcustody]
    refine (h.books.charged.congr (fun t => ?_) (fun t => ?_) (fun t => ?_)).of_load
      (fun q κ => ?_) ?_
    · rw [hcounts]
    · rw [hcounts]
    · rw [hcounts]
    · exact Custody.load_markAll p.steps
    · rw [Custody.markAll_eq]
  · show ((w.state.claimed p).counts t).queued = (w.state.claimed p).queue.countP _
    rw [hcounts, hstate]
    exact h.books.queued t
  · have hold := h.books.pins t
    have hzero : w.held.touches t = 0 := by
      unfold Held.touches
      rw [hpub]
    rw [hzero, Nat.add_zero] at hold
    show ((w.state.claimed p).counts t).pins
      = w.held.pins.count t + (p.tenants.map TenantChange.tenant).count t
    rw [hcounts, ← hold]
  · show ((w.state.claimed p).counts t).learning = w.held.learners.count t
    rw [hcounts]
    exact h.books.learning t
  · refine ⟨?_, h.lines.task_nodup, fun t ht => Nat.lt_succ_of_lt (h.lines.task_lt t ht), ?_⟩
    · rw [hstate]
      exact h.lines.queue_nodup
    · rw [hstate]
      exact h.lines.caller

end

/-- **Preparing a publication keeps the invariant.** -/
theorem prepareUnknown (h : Kept w) (hkeys : (steps.map Step.key).Nodup)
    (hnew : ∀ step ∈ steps, step.owner = none) {p : Publication} {s' : State}
    (hp : w.state.prepareUnknown read steps token = .ok (p, s')) :
    Kept { w with
      state := s'
      held := { w.held with nextId := w.held.nextId + 1, publication := some p } } := by
  obtain ⟨hopen, hgeneration, -, claims, touched, tenants, totals, active, hmap, htouched,
    hcalculate, rfl, rfl⟩ := State.prepareUnknown_eq_ok hp
  obtain ⟨hclaimKeys, hclaims⟩ := claims_spec hnew hmap
  obtain ⟨hcounter, hkeep, hcached, hunknown, hbytes⟩ := Publication.calculate_fits hcalculate
  obtain ⟨hnodup, hget, hmem⟩ := h.touched_spec hclaims htouched
  have hnames : tenants.map TenantChange.tenant = touched.map TenantChange.tenant := by
    have hfst := congrArg (List.map Prod.fst) hkeep
    rwa [List.map_map, List.map_map] at hfst
  have hsame : ∀ t ∈ tenants, ∃ t₀ ∈ touched, t₀.tenant = t.tenant ∧ t₀.durable = t.durable
      ∧ t₀.uncovered = t.uncovered := by
    intro t ht
    have hin : (t.tenant, t.durable, t.uncovered)
        ∈ touched.map (fun c => (c.tenant, c.durable, c.uncovered)) := by
      rw [← show tenants.map (fun c => (c.tenant, c.durable, c.uncovered))
        = touched.map (fun c => (c.tenant, c.durable, c.uncovered)) from hkeep]
      exact List.mem_map_of_mem (f := fun c : TenantChange => (c.tenant, c.durable, c.uncovered)) ht
    obtain ⟨t₀, ht₀, heq⟩ := List.mem_map.mp hin
    obtain ⟨h1, h2⟩ := Prod.mk.inj heq
    obtain ⟨h2, h3⟩ := Prod.mk.inj h2
    exact ⟨t₀, ht₀, h1, h2, h3⟩
  have hchecked : Checked w
      { State.drafted read token claims touched with tenants := tenants, finished := false } :=
    { unfinished := rfl
      generation := hgeneration
      counter := hcounter
      keys := by
        show ((claims.map Prod.fst).map Step.key).Nodup
        rw [List.map_map]
        exact hclaimKeys ▸ hkeys
      taken := by
        intro step hstep
        obtain ⟨c, hc, rfl⟩ := List.mem_map.mp hstep
        exact (hclaims c hc).2
      tenants := by
        show (tenants.map TenantChange.tenant).Nodup
        rw [hnames]
        exact hnodup
      counted := by
        intro t ht
        obtain ⟨t₀, ht₀, heq, -⟩ := hsame t ht
        exact heq ▸ (hget t₀ ht₀).1
      touched := by
        intro step hstep hor
        obtain ⟨c, hc, rfl⟩ := List.mem_map.mp hstep
        show _ ∈ tenants.map TenantChange.tenant
        rw [hnames]
        exact hmem c hc hor
      durable := by
        intro t ht
        obtain ⟨t₀, ht₀, heq, hd, -⟩ := hsame t ht
        rw [← hd, (hget t₀ ht₀).2.1, heq]
        rfl
      uncovered := by
        intro t ht
        obtain ⟨t₀, ht₀, heq, -, hu⟩ := hsame t ht
        rw [← hu, (hget t₀ ht₀).2.2, heq]
        rfl
      cached := by
        intro t ht n hn
        obtain ⟨t₀, ht₀, heq, hd, -⟩ := hsame t ht
        rw [← hd]
        exact hcached t₀ ht₀ n (heq ▸ hn)
      unknown := hunknown
      bytes := hbytes }
  exact hchecked.kept h hopen

end Kept

end BitRouter.Admission
