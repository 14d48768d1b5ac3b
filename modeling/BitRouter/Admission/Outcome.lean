import BitRouter.Admission.Frames

/-!
# The outcome of a publication

What consuming a prepared publication comes to, in the terms of the changes
and terminals it was prepared for (`Consumed`), however the leases it is about
have been dropped meanwhile. An execution that is completed stays completed
(`Kept.step_done`), so a lease dropped after its terminal has been published
gives back its slot and nothing else.
-/

namespace BitRouter.Admission

open Tenancy
open Receipts (ErrorCode Inventory reservation rowOverhead)

/-! ## The steps of the changes -/

def State.source (s : State) (key : Key) : Option ℕ :=
  (s.executions[key]?).bind
    (fun live => if (s.completions live.owner).done then none else some live.owner)

/-- **A claim is of the live source, and changes nothing else of the step.** -/
theorem claimStep_eq {s : State} {step step' : Step} {delta : ℤ} (hnew : step.owner = none)
    (h : claimStep s step = .ok (step', delta)) :
    step' = { step with owner := s.source step.key } := by
  have hsame : step = { step with owner := none } := by rw [← hnew]
  unfold claimStep at h
  unfold State.source
  cases hlive : s.executions[step.key]? with
  | none =>
    rw [hlive] at h
    obtain ⟨_, -, h⟩ := bind_eq_ok.mp h
    obtain ⟨rfl, -⟩ := Prod.mk.inj (pure_eq_ok.mp h)
    exact hsame
  | some live =>
    rw [hlive] at h
    show step' = { step with
      owner := if (s.completions live.owner).done then none else some live.owner }
    by_cases hdone : (s.completions live.owner).done = true
    · simp only [hdone, if_true] at h ⊢
      obtain ⟨_, -, h⟩ := bind_eq_ok.mp h
      obtain ⟨rfl, -⟩ := Prod.mk.inj (pure_eq_ok.mp h)
      exact hsame
    · simp only [hdone, Bool.false_eq_true, if_false] at h ⊢
      obtain ⟨_, -, h⟩ := bind_eq_ok.mp h
      obtain ⟨rfl, -⟩ := Prod.mk.inj (pure_eq_ok.mp h)
      rfl

variable {steps : List Step}

theorem claims_eq {s : State} {claims : List (Step × ℤ)}
    (hnew : ∀ step ∈ steps, step.owner = none) (h : steps.mapM (claimStep s) = .ok claims) :
    claims.map Prod.fst = steps.map (fun step => { step with owner := s.source step.key }) := by
  have hall := mapM_eq_ok.mp h
  clear h
  induction hall with
  | nil => rfl
  | cons hclaim _ ih =>
    obtain ⟨hhead, hrest⟩ := List.forall_mem_cons.mp hnew
    rw [List.map_cons, List.map_cons, claimStep_eq hhead hclaim, ih hrest]

theorem matchSteps_changes {changes : List Change} {seen : List Key}
    {terminals rest : List Terminal} (h : matchSteps changes seen terminals = .ok (steps, rest)) :
    steps.map (fun step => (step.key, step.before, step.after))
      = changes.map (fun c => (c.key, c.before.isSome, c.after.isSome)) := by
  induction changes generalizing seen terminals rest steps with
  | nil =>
    obtain ⟨rfl, -⟩ := Prod.mk.inj (Except.ok.inj h)
    rfl
  | cons change changes ih =>
    obtain ⟨_, -, h⟩ := bind_eq_ok.mp h
    obtain ⟨⟨steps', rest'⟩, hrest, h⟩ := bind_eq_ok.mp h
    obtain ⟨rfl, -⟩ := Prod.mk.inj (pure_eq_ok.mp h)
    rw [List.map_cons, List.map_cons, ih hrest]

/-- The terminal of a key, and the others. -/
theorem sum_terminal_key (f : Key → ℕ → ℕ) (k : Key) {ts : List Terminal}
    (hnodup : (ts.map Terminal.key).Nodup) :
    ((ts.find? (fun t => t.key = k)).map Terminal.bytes).elim 0 (f k)
        + ((ts.filter (fun t => t.key ≠ k)).map (fun t => f t.key t.bytes)).sum
      = (ts.map (fun t => f t.key t.bytes)).sum := by
  induction ts with
  | nil => rfl
  | cons t ts ih =>
    obtain ⟨hnew, hnodup⟩ := List.nodup_cons.mp hnodup
    by_cases hk : t.key = k
    · subst hk
      have hrest : ts.filter (fun u => u.key ≠ t.key) = ts := by
        refine List.filter_eq_self.mpr (fun u hu => ?_)
        have hne : u.key ≠ t.key := fun heq => hnew (heq ▸ List.mem_map_of_mem hu)
        simpa using hne
      rw [List.find?_cons_of_pos (by simp), List.filter_cons_of_neg (by simp), hrest,
        List.map_cons, List.sum_cons]
      rfl
    · rw [List.find?_cons_of_neg (by simpa using hk), List.filter_cons_of_pos (by simpa using hk),
        List.map_cons, List.map_cons, List.sum_cons, List.sum_cons, ← ih hnodup]
      exact Nat.add_left_comm _ _ _

/-- **Every terminal is in one step**, or in the remainder. -/
theorem matchSteps_terminals (f : Key → ℕ → ℕ) {changes : List Change} {seen : List Key}
    {terminals rest : List Terminal} (hnodup : (terminals.map Terminal.key).Nodup)
    (h : matchSteps changes seen terminals = .ok (steps, rest)) :
    (steps.map (fun step => step.terminal.elim 0 (f step.key))).sum
        + (rest.map (fun t => f t.key t.bytes)).sum
      = (terminals.map (fun t => f t.key t.bytes)).sum := by
  induction changes generalizing seen terminals rest steps with
  | nil =>
    obtain ⟨rfl, rfl⟩ := Prod.mk.inj (Except.ok.inj h)
    exact Nat.zero_add _
  | cons change changes ih =>
    obtain ⟨_, -, h⟩ := bind_eq_ok.mp h
    obtain ⟨⟨steps', rest'⟩, hrest, h⟩ := bind_eq_ok.mp h
    obtain ⟨rfl, rfl⟩ := Prod.mk.inj (pure_eq_ok.mp h)
    have hfiltered := hnodup.sublist (List.Sublist.map Terminal.key
      (List.filter_sublist (p := fun t => t.key ≠ change.key)))
    rw [List.map_cons, List.sum_cons, Nat.add_assoc, ih hfiltered hrest,
      ← sum_terminal_key f change.key hnodup]

/-- **What a writer's transaction is read as.** -/
theorem readSteps_eq {changes : List Change} {terminals : List Terminal}
    (h : readSteps changes terminals = .ok steps) :
    steps.map (fun step => (step.key, step.before, step.after))
        = changes.map (fun c => (c.key, c.before.isSome, c.after.isSome))
      ∧ ∀ f : Key → ℕ → ℕ, (steps.map (fun step => step.terminal.elim 0 (f step.key))).sum
        = (terminals.map (fun t => f t.key t.bytes)).sum := by
  obtain ⟨_, hnodup, h⟩ := bind_eq_ok.mp h
  obtain ⟨⟨steps', rest⟩, hmatch, h⟩ := bind_eq_ok.mp h
  obtain ⟨_, hrest, h⟩ := bind_eq_ok.mp h
  obtain rfl := pure_eq_ok.mp h
  obtain rfl := ensure_eq_ok.mp hrest
  exact ⟨matchSteps_changes hmatch, fun f => matchSteps_terminals f (ensure_eq_ok.mp hnodup) hmatch⟩

/-! ## Records gained and lost -/

variable {α : Type}

theorem countP_eq_sum (q : α → Bool) (l : List α) :
    l.countP q = (l.map (fun x => (q x).toNat)).sum := by
  induction l with
  | nil => rfl
  | cons x l ih =>
    rw [List.countP_cons, List.map_cons, List.sum_cons, ih, Nat.add_comm]
    cases q x <;> rfl

/-- The changes of the tenants of `p` that gain a record. -/
def gained (p : TenantId → Bool) (changes : List Change) : ℕ :=
  changes.countP (fun c => p c.key.tenant && c.before.isNone && c.after.isSome)

/-- The changes of the tenants of `p` that lose a record. -/
def lost (p : TenantId → Bool) (changes : List Change) : ℕ :=
  changes.countP (fun c => p c.key.tenant && c.before.isSome && c.after.isNone)

/-- **The steps move the counts by the records gained and lost.** -/
theorem stepSum_durable {p : TenantId → Bool} {changes : List Change}
    (h : steps.map (fun step => (step.key, step.before, step.after))
      = changes.map (fun c => (c.key, c.before.isSome, c.after.isSome))) :
    stepSum p Step.durable steps = (gained p changes : ℤ) - lost p changes := by
  have hsum : stepSum p Step.durable steps
      = ((steps.map (fun step => (step.key, step.before, step.after))).map
          (fun e => if p e.1.tenant then ((e.2.2.toNat : ℤ) - e.2.1.toNat) else 0)).sum := by
    rw [List.map_map]
    rfl
  rw [hsum, h, List.map_map]
  clear hsum h
  induction changes with
  | nil => rfl
  | cons c changes ih =>
    rw [List.map_cons, List.sum_cons, ih]
    unfold gained lost
    rw [List.countP_cons, List.countP_cons]
    show (if p c.key.tenant then ((c.after.isSome.toNat : ℤ) - c.before.isSome.toNat) else 0) + _
      = _
    cases p c.key.tenant <;> cases c.before <;> cases c.after <;> simp <;> omega

def net (rollback : Bool) (p : TenantId → Bool) (changes : List Change) : ℤ :=
  if rollback then 0 else gained p changes - lost p changes

/-! ## What it was prepared for -/

/-- **A publication prepared in `s₀`** for some changes and terminals: its steps
are the changes, with their live sources; every terminal is in one step. -/
structure PreparedFor (s₀ : State) (changes : List Change) (terminals : List Terminal)
    (p : Publication) : Prop where
  changes : p.steps.map (fun step => (step.key, step.before, step.after))
    = changes.map (fun c => (c.key, c.before.isSome, c.after.isSome))
  owner : ∀ step ∈ p.steps, step.owner = s₀.source step.key
  terminals : ∀ f : Key → ℕ → ℕ, (p.steps.map (fun step => step.terminal.elim 0 (f step.key))).sum
    = (terminals.map (fun t => f t.key t.bytes)).sum

theorem State.prepareUnknown_for {s₀ s' : State} {read : Read} {changes : List Change}
    {terminals : List Terminal} {token : ℕ} {p : Publication}
    (hsteps : readSteps changes terminals = .ok steps)
    (hp : s₀.prepareUnknown read steps token = .ok (p, s')) :
    PreparedFor s₀ changes terminals p := by
  obtain ⟨-, -, -, claims, _, _, _, _, hmap, -, -, rfl, -⟩ := State.prepareUnknown_eq_ok hp
  have hclaims := claims_eq (readSteps_spec hsteps).2 hmap
  obtain ⟨hchanges, hterminals⟩ := readSteps_eq hsteps
  refine ⟨?_, fun step hstep => ?_, fun f => ?_⟩
  · show (claims.map Prod.fst).map _ = _
    rw [hclaims, List.map_map]
    exact hchanges
  · have hmem : step ∈ claims.map Prod.fst := hstep
    rw [hclaims] at hmem
    obtain ⟨step, -, rfl⟩ := List.mem_map.mp hmem
    rfl
  · show ((claims.map Prod.fst).map _).sum = _
    rw [hclaims, List.map_map]
    exact hterminals f

namespace PreparedFor

variable {s₀ s : State} {changes : List Change} {terminals : List Terminal} {p : Publication}

section

variable (h : PreparedFor s₀ changes terminals p)

include h

theorem recorded_eq (b : Bool) (q : TenantId → Bool) :
    stepSum q (Step.recorded b) p.steps = net b q changes := by
  cases b with
  | true => rw [Step.recorded_true, stepSum_zero]; rfl
  | false => rw [Step.recorded_false, stepSum_durable h.changes]; rfl

/-- **The bytes of the live terminals**, each with its row. -/
theorem stored_eq (b : Bool) :
    (p.steps.map (Step.stored b)).sum = if b then 0 else
      (terminals.map (fun t => if (s₀.source t.key).isSome ∧ 0 < t.bytes then
        t.bytes + rowOverhead else 0)).sum := by
  cases b with
  | true =>
    rw [Step.stored_true, List.map_const', List.sum_replicate]
    exact Nat.mul_zero _
  | false =>
    rw [if_neg (by simp), ← h.terminals (fun k bytes =>
      if (s₀.source k).isSome ∧ 0 < bytes then bytes + rowOverhead else 0)]
    refine congrArg List.sum (List.map_congr_left (fun step hstep => ?_))
    show step.charge = _
    unfold Step.charge
    rw [h.owner step hstep]
    cases s₀.source step.key with
    | none => cases step.terminal <;> simp
    | some o =>
      cases step.terminal with
      | none => simp
      | some bytes => cases bytes <;> simp

/-- **The completions released**: one for each live terminal, and one for each
dropped lease whose step has no terminal. -/
theorem freed_eq (b : Bool) :
    stepCount everyone (s.freed b) p.steps
      = (if b then 0 else terminals.countP (fun t => (s₀.source t.key).isSome))
        + p.steps.countP (fun step => s.gone step && !step.ends b) := by
  have hgone : ∀ step : Step, s.gone step = true → step.owner.isSome = true := by
    intro step hgone
    cases howner : step.owner with
    | some o => rfl
    | none => exact absurd (hgone.symm.trans (Tally.gone_of_unowned howner)) (by simp)
  have hpoint : ∀ step ∈ p.steps, s.freed b step
      = (if b then 0 else step.terminal.elim 0 (fun _ => (s₀.source step.key).isSome.toNat))
        + (s.gone step && !step.ends b).toNat := by
    intro step hstep
    have hown := hgone step
    rw [← h.owner step hstep]
    unfold State.freed Step.ends
    cases hg : s.gone step with
    | true =>
      rw [hown hg]
      cases b <;> cases step.terminal <;> rfl
    | false => cases b <;> cases step.terminal <;> cases step.owner <;> rfl
  unfold stepCount
  rw [show (p.steps.map (fun step => if everyone step.key.tenant then s.freed b step else 0))
      = p.steps.map (s.freed b) from rfl, List.map_congr_left hpoint, List.sum_map_add,
    ← countP_eq_sum, Nat.add_left_inj]
  cases b with
  | true => simp
  | false =>
    rw [if_neg (by simp), countP_eq_sum]
    exact h.terminals (fun k _ => (s₀.source k).isSome.toNat)

theorem step_of_terminal {t : Terminal}
    (ht : t ∈ terminals) : ∃ step ∈ p.steps, step.key = t.key ∧ step.ends false = true := by
  have hsum := h.terminals (fun k _ => if k = t.key then 1 else 0)
  have hone : 1 ≤ (terminals.map (fun u => if u.key = t.key then 1 else 0)).sum := by
    refine le_trans (le_of_eq ?_) (List.single_le_sum (fun _ _ => Nat.zero_le _) _
      (List.mem_map_of_mem (f := fun u : Terminal => if u.key = t.key then 1 else 0) ht))
    rw [if_pos rfl]
  rw [← hsum] at hone
  by_contra hnone
  refine absurd hone (not_le.mpr (Nat.lt_one_iff.mpr (List.sum_eq_zero (fun x hx => ?_))))
  obtain ⟨step, hstep, rfl⟩ := List.mem_map.mp hx
  cases hterminal : step.terminal with
  | none => rfl
  | some bytes =>
    show (if step.key = t.key then 1 else 0) = 0
    refine if_neg (fun hkey => hnone ⟨step, hstep, hkey, ?_⟩)
    rw [Step.ends, hterminal]
    rfl

end

end PreparedFor

/-! ## Completed sources -/

namespace Custody

variable {c : Custody} {b : Bool}

/-- **Settling the steps completes every source that has a terminal.** -/
theorem Sound.settleAll_completes (hs : c.Sound) (hnodup : (steps.map Step.key).Nodup)
    (h : c.Claims steps) {step : Step} {owner : ℕ} (hstep : step ∈ steps)
    (howner : step.owner = some owner) (hends : step.ends b = true) :
    ((steps.foldl (settle b) c).completions owner).done = true := by
  induction steps generalizing c with
  | nil => exact absurd hstep List.not_mem_nil
  | cons head steps ih =>
    rcases List.mem_cons.mp hstep with rfl | hstep
    · obtain ⟨live, hlive⟩ := h step List.mem_cons_self (by rw [howner]; rfl)
      obtain rfl : live.owner = owner := Option.some.inj (hlive.owner.symm.trans howner)
      refine settleAll_done steps ?_
      rw [hlive.settle_done_self]
      exact Bool.or_eq_true_iff.mpr (Or.inl hends)
    · obtain ⟨hs', h'⟩ := hs.claims_settle (b := b) hnodup h
      exact ih hs' (List.nodup_cons.mp hnodup).2 h' hstep

end Custody

/-! ## A consumed publication -/

/-- **What consuming a publication comes to.** It was prepared in `s₀` and is
consumed in `s`. -/
structure Consumed (s₀ s s' : State) (changes : List Change) (terminals : List Terminal)
    (p : Publication) (rollback : Bool) : Prop where
  unknown : (s'.receipts.totals.unknown : ℤ)
    = s.receipts.totals.unknown + net rollback everyone changes
  /-- The count of a tenant that is still cached has moved by its own changes. -/
  cached : ∀ (u : TenantId) (c : Counts) (m : ℕ), s'.tenants[u]? = some c →
    (s.counts u).unknown = some m → ∃ n : ℕ, c.unknown = some n
      ∧ (n : ℤ) = m + net rollback (only u) changes
  /-- No count is cached that was not. -/
  uncached : ∀ (u : TenantId) (n : ℕ), (s'.counts u).unknown = some n →
    ∃ m : ℕ, (s.counts u).unknown = some m
  bytes : s'.receipts.totals.bytes = s.receipts.totals.bytes + if rollback then 0 else
    (terminals.map (fun t => if (s₀.source t.key).isSome ∧ 0 < t.bytes then
      t.bytes + rowOverhead else 0)).sum
  /-- A live terminal releases its reservation, its lease dropped or not; a
  dropped lease without one releases its own. -/
  live : s'.receipts.totals.live
      + ((if rollback then 0 else terminals.countP (fun t => (s₀.source t.key).isSome))
        + p.steps.countP (fun step => s.gone step && !step.ends rollback))
    = s.receipts.totals.live
  reserved : s'.receipts.totals.reserved
      + ((if rollback then 0 else terminals.countP (fun t => (s₀.source t.key).isSome))
        + p.steps.countP (fun step => s.gone step && !step.ends rollback)) * reservation
    = s.receipts.totals.reserved
  /-- The slots of the leases dropped meanwhile are free. -/
  active : s'.active + p.steps.countP s.gone = s.active
  completed : rollback = false → ∀ t ∈ terminals, ∀ owner, s₀.source t.key = some owner →
    (s'.completions owner).done = true

/-- **Counts that agreed with the committed obligations agree with them after
the outcome.** -/
theorem Consumed.agreement {s₀ s s' : State} {changes : List Change} {terminals : List Terminal}
    {p : Publication} {b : Bool} (h : Consumed s₀ s s' changes terminals p b)
    {committed committed' : TenantId → ℕ}
    (hbefore : ∀ u m, (s.counts u).unknown = some m → m = committed u)
    (houtcome : ∀ u, (committed' u : ℤ) = committed u + net b (only u) changes)
    {u : TenantId} {n : ℕ} (hn : (s'.counts u).unknown = some n) : n = committed' u := by
  obtain ⟨m, hm⟩ := h.uncached u n hn
  have hget : s'.tenants[u]? = some (s'.counts u) :=
    State.get_of_counts_ne (fun heq => by rw [heq] at hn; exact absurd hn (by simp))
  obtain ⟨n', hn', heq⟩ := h.cached u _ m hget hm
  obtain rfl := Option.some.inj (hn'.symm.trans hn)
  have hcommitted := houtcome u
  rw [← hbefore u m hm] at hcommitted
  omega

theorem State.foldl_idle_tenants {s : State} (ts : List TenantChange) {u : TenantId} {c : Counts}
    (h : (ts.foldl (fun s t => s.idle t.tenant) s).tenants[u]? = some c) :
    s.tenants[u]? = some c := by
  induction ts generalizing s with
  | nil => exact h
  | cons t ts ih =>
    have hone : (s.idle t.tenant).tenants[u]? = some c := ih h
    unfold State.idle at hone
    split at hone
    · have herase : (s.tenants.erase t.tenant)[u]? = some c := hone
      rw [Std.TreeMap.getElem?_erase] at herase
      split at herase
      · exact absurd herase (by simp)
      · exact herase
    · exact hone

namespace Kept

variable {w : World} {p : Publication} {b : Bool}

/-- What a publication releases is reserved. -/
theorem freed_reserved (h : Kept w) (hp : w.held.publication = some p) :
    stepCount everyone (w.state.freed b) p.steps * reservation
      ≤ w.state.receipts.totals.reserved := by
  obtain ⟨-, -, a3, a4⟩ := (h.prepared_of hp).loads (b := b) (q := everyone) h.sound
  have hrows := ((h.prepared_of hp).sound_settled (b := b) h.sound).load_repair_le_live
    (p := everyone)
  have hlive := h.books.charged.allLive
  have hrepair := h.books.charged.allRepairs
  have hless : stepCount everyone (w.state.freed b) p.steps
      ≤ w.state.receipts.totals.live - w.state.receipts.totals.repairLive := by omega
  rw [h.books.charged.reserved]
  exact le_trans (Nat.mul_le_mul_right _ hless) (Nat.le_add_right _ _)

/-- **From every state that keeps the invariant a publication is consumed**, and
this is what it comes to. -/
theorem consumed (h : Kept w) (hp : w.held.publication = some p)
    (hfence : w.state.receipts.fenced = false) {s₀ : State} {changes : List Change}
    {terminals : List Terminal} (hfor : PreparedFor s₀ changes terminals p) :
    ∃ s', w.state.finishPublication p b = .ok s' ∧ s'.receipts.fenced = false
      ∧ Consumed s₀ w.state s' changes terminals p b := by
  have hprep := h.prepared_of hp
  obtain ⟨hfinish, -⟩ := h.finishPublication (b := b) hp hfence
  obtain ⟨a1, -, a3, -⟩ := hprep.loads (b := b) (q := everyone) h.sound
  set ts := p.tenants.map (w.state.outcome p b) with hts
  obtain ⟨tenants, hidle⟩ := State.foldl_idle_eq ts (w.state.settledState p b)
  have hback := fun u c => State.foldl_idle_tenants (s := w.state.settledState p b) ts (u := u)
    (c := c)
  refine ⟨_, hfinish, ?_, ?_⟩
  · rw [hidle]
    show (w.state.settledState p b).receipts.fenced = false
    rw [State.settledState_receipts]
    exact hfence
  · rw [hidle] at hback ⊢
    have hreceipts := w.state.settledState_receipts (p := p) (b := b)
    have hcached : ∀ (u : TenantId) (n : ℕ),
      ((w.state.settledState p b).counts u).unknown = some n →
        ∃ m : ℕ, (w.state.counts u).unknown = some m ∧ (n : ℤ) = m + net b (only u) changes := by
      intro u n hn
      obtain ⟨m, hm, heq, -⟩ := h.cached_outcome hp hn
      exact ⟨m, hm, by rw [← hfor.recorded_eq]; exact heq⟩
    have hcounts : ∀ u c, tenants[u]? = some c → (w.state.settledState p b).counts u = c :=
      fun u c hc => State.counts_of_get (hback u c hc)
    refine
      { unknown := ?_
        cached := fun u c m hc hm => ?_
        uncached := fun u n hn => ?_
        bytes := ?_
        live := ?_
        reserved := ?_
        active := ?_
        completed := fun hb t ht owner howner => ?_ }
    · show ((w.state.settledState p b).receipts.totals.unknown : ℤ) = _
      obtain ⟨hlow, -⟩ := hprep.unknown_adjust (b := b) h.bounded
      rw [hreceipts, ← hfor.recorded_eq]
      exact Int.toNat_of_nonneg hlow
    · have hsome : (((w.state.settledState p b).counts u).unknown).isSome := by
        obtain ⟨hin, hout⟩ := h.counts_settled (b := b) hp
        by_cases hu : u ∈ p.tenants.map TenantChange.tenant
        · obtain ⟨t, htm, rfl⟩ := List.mem_map.mp hu
          rw [hin t htm]
          show ((w.state.counts t.tenant).unknown.map _).isSome
          rw [hm]
          rfl
        · rw [hout u hu, hm]
          rfl
      obtain ⟨n, hn⟩ := Option.isSome_iff_exists.mp hsome
      obtain ⟨m', hm', heq⟩ := hcached u n hn
      obtain rfl := Option.some.inj (hm'.symm.trans hm)
      exact ⟨n, hcounts u c hc ▸ hn, heq⟩
    · have hget : tenants[u]? = some (State.counts { w.state.settledState p b with
          tenants := tenants } u) :=
        State.get_of_counts_ne (fun heq => by rw [heq] at hn; exact absurd hn (by simp))
      rw [← hcounts u _ hget] at hn
      obtain ⟨m, hm, -⟩ := hcached u n hn
      exact ⟨m, hm⟩
    · show (w.state.settledState p b).receipts.totals.bytes = _
      rw [hreceipts, ← hfor.stored_eq]
      rfl
    · show (w.state.settledState p b).receipts.totals.live + _ = _
      rw [hreceipts, ← hfor.freed_eq]
      show w.state.receipts.totals.live - stepCount everyone (w.state.freed b) p.steps + _ = _
      have hall := h.books.charged.allLive
      omega
    · show (w.state.settledState p b).receipts.totals.reserved + _ = _
      rw [hreceipts, ← hfor.freed_eq]
      exact Nat.sub_add_cancel (h.freed_reserved hp)
    · show (w.state.settledState p b).active + _ = _
      rw [State.settledState_active, countP_eq_sum]
      have hall := h.books.charged.allActive
      exact Nat.sub_add_cancel (by omega)
    · subst hb
      obtain ⟨step, hstep, hkey, hends⟩ := hfor.step_of_terminal ht
      have hdone := h.sound.settleAll_completes (b := false) hprep.keys hprep.claims hstep
        (by rw [hfor.owner step hstep, hkey, howner]) hends
      rw [← State.custody_settleWith ts (w.state.outcomeTotals p false)
        (w.state.active - stepCount everyone w.state.slots p.steps)] at hdone
      exact hdone

end Kept

/-! ## A completed source gives back its slot -/

namespace State

variable {s s' : State} {t : TenantId} {owner : ℕ}

/-- **The release of a completed source gives back its slot only.** -/
theorem releaseOwned_totals {key : Option Key} {covered : Bool}
    (h : s.releaseOwned t owner key covered = .ok s') (hdone : (s.completions owner).done = true) :
    s'.receipts = s.receipts := by
  unfold releaseOwned at h
  rw [hdone] at h
  simp only [if_true, bind_eq_ok, pure_eq_ok] at h
  obtain ⟨_, -, _, -, _, -, _, rfl, rfl⟩ := h
  rw [idle_receipts]
  rfl

theorem dropLease_totals {lease : Lease}
    (hok : s.releaseLease lease.tenant lease.completion = .ok s')
    (hdone : (s.completions lease.completion).done = true) :
    (s.dropLease lease).receipts.totals = s.receipts.totals := by
  unfold dropLease
  rw [hok]
  show s'.receipts.totals = s.receipts.totals
  rcases releaseLease_cases hok with ⟨_, _, howned⟩ | ⟨_, rfl⟩
  · rw [releaseOwned_totals howned hdone]
  · rfl

end State

/-! ## The publication until it is consumed -/

/-- An update that is not refused. -/
theorem update_of_ok {s s₁ : State} (profile : Profile) (r : Reading)
    (change : State → Except ErrorCode (α × State)) {a : α}
    (h : change (s.prepared r).2 = .ok (a, s₁)) :
    ∃ woken, s.update profile r (State.attempt change)
      = (.ok a, woken, (s₁.concluded profile).2) := by
  unfold State.update State.attempt
  dsimp only
  rw [h]
  exact ⟨_, rfl⟩

variable {r : Reading}

namespace World

variable {w : World}

theorem attempt_held (w : World) (r : Reading) (change : State → Except ErrorCode (α × State))
    (gain : α → Held → Held) :
    (w.attempt r change gain).held = w.held
      ∨ ∃ a s', change (w.state.prepared r).2 = .ok (a, s')
        ∧ (w.attempt r change gain).held = gain a w.held := by
  unfold attempt
  rcases hu : w.state.update w.config.profile r (State.attempt change) with ⟨answer, woken, s'⟩
  rcases update_attempt hu with ⟨a, s₁, rfl, hok, -⟩ | ⟨e, rfl, -⟩
  · exact Or.inr ⟨a, s₁, hok, rfl⟩
  · exact Or.inl rfl

theorem enqueue_publication {tenant : TenantId} {limits : Limits} {deadline : ℕ} :
    (w.enqueue r tenant limits deadline).held.publication = w.held.publication := by
  unfold enqueue
  dsimp only
  split <;> rfl

theorem checkTask_publication {t : Task} :
    (w.checkTask t r).held.publication = w.held.publication := by
  unfold checkTask
  dsimp only
  split <;> rfl

/-- **What consuming a publication leaves**, its outcome known. -/
theorem finishPublication_ok {p : Publication} {b : Bool} {disposition : Disposition}
    (hsettles : p.settles b disposition = true) {s' : State}
    (hok : (w.state.prepared r).2.finishPublication p b = .ok s') :
    (w.finishPublication p b disposition r).state = (s'.concluded w.config.profile).2
      ∧ (w.finishPublication p b disposition r).held = { w.held with publication := none } := by
  unfold finishPublication
  rw [if_pos hsettles]
  obtain ⟨woken, hu⟩ := update_of_ok w.config.profile r
    (fun s => (s.finishPublication p b).map (fun s => ((), s))) (map_eq_ok.mpr ⟨s', hok, rfl⟩)
  rw [hu]
  exact ⟨rfl, rfl⟩

theorem finishPublication_unsettled {p : Publication} {b : Bool} {disposition : Disposition}
    (hsettles : ¬ p.settles b disposition = true) :
    (w.finishPublication p b disposition r).state.receipts.fenced = true := by
  unfold finishPublication
  rw [if_neg hsettles]
  exact apply_fence r

end World

/-- **A publication stays until its outcome is known**, or it fences. -/
theorem Kept.step_publication {w : World} (h : Kept w) {p : Publication}
    (hp : w.held.publication = some p) (e : Event)
    (hunfenced : (w.step e).state.receipts.fenced = false) :
    (w.step e).held.publication = some p
      ∨ ∃ b disposition r, e = .finish b disposition r ∧ p.settles b disposition = true := by
  have hattempt : ∀ {α : Type} {r : Reading} {change : State → Except ErrorCode (α × State)}
      {gain : α → Held → Held}, (∀ a o, (gain a o).publication = o.publication) →
      (w.attempt r change gain).held.publication = some p := by
    intro α r change gain hgain
    rcases w.attempt_held r change gain with
      heq | ⟨a, _, -, heq⟩
    · rw [heq, hp]
    · rw [heq, hgain, hp]
  cases e with
  | acquire tenant limits requestDeadline started r =>
    exact Or.inl (World.enqueue_publication.trans hp)
  | check id r =>
    refine Or.inl ?_
    rw [World.step_check]
    cases w.task id with
    | none => exact hp
    | some t =>
      rw [Option.elim_some]
      split
      · exact World.checkTask_publication.trans hp
      · exact hp
  | deliver id =>
    refine Or.inl ?_
    show (if id ∈ w.notices then _ else w).held.publication = some p
    split <;> exact hp
  | wake id => exact Or.inl hp
  | elapse id => exact Or.inl hp
  | cancel id => exact Or.inl hp
  | leave id r =>
    refine Or.inl ?_
    rw [World.step_leave]
    cases w.task id with
    | none => exact hp
    | some t =>
      rw [Option.elim_some]
      split <;> exact hp
  | tryAcquire tenant limits deadline r => exact Or.inl (hattempt (fun _ _ => rfl))
  | dropLease lease r =>
    refine Or.inl ?_
    show (if lease ∈ w.held.leases then _ else w).held.publication = some p
    split <;> exact hp
  | bind lease execution r =>
    refine Or.inl ?_
    show (if lease ∈ w.held.leases then _ else w).held.publication = some p
    split
    · exact hattempt (fun _ _ => rfl)
    · exact hp
  | pinUnknown tenant maintenance r =>
    refine Or.inl (hattempt (fun a o => ?_))
    split <;> rfl
  | seedUnknown read tenant count r => exact Or.inl (hattempt (fun _ _ => rfl))
  | dropPin tenant r =>
    refine Or.inl ?_
    show (if tenant ∈ w.held.pins then _ else w).held.publication = some p
    split <;> exact hp
  | learn tenant maximum r => exact Or.inl (hattempt (fun _ _ => rfl))
  | dropLearner tenant r =>
    refine Or.inl ?_
    show (if tenant ∈ w.held.learners then _ else w).held.publication = some p
    split <;> exact hp
  | upload bytes r =>
    refine Or.inl ?_
    show (if bytes ≤ 16 * 1024 * 1024 then _ else w).held.publication = some p
    split
    · exact hattempt (fun _ _ => rfl)
    · exact hp
  | dropUpload bytes r =>
    refine Or.inl ?_
    show (if bytes ∈ w.held.uploads then _ else w).held.publication = some p
    split <;> exact hp
  | reserveRepair read tenant bytes entries r => exact Or.inl (hattempt (fun _ _ => rfl))
  | finishRepair repair committed r =>
    refine Or.inl ?_
    show (if repair ∈ w.held.repairs then _ else w).held.publication = some p
    split
    · exact hattempt (fun _ _ => rfl)
    · exact hp
  | dropRepair repair r =>
    refine Or.inl ?_
    show (if repair ∈ w.held.repairs then _ else w).held.publication = some p
    split <;> exact hp
  | prepare read changes terminals disposition r =>
    refine Or.inl ?_
    unfold World.step
    dsimp only
    split
    · exact hp
    · next steps _ =>
      rcases w.attempt_held r
        (fun s => s.prepareUnknown read steps w.held.nextId)
        (fun p o => { o with nextId := o.nextId + 1, publication := some p })
        with heq | ⟨a, _, hok, -⟩
      · rw [heq, hp]
      · -- nothing is prepared while a publication is pending
        have hpending := ((h.prepared r).prepared_of hp).token
        exact absurd (hpending.symm.trans (State.prepareUnknown_eq_ok hok).1) (by simp)
  | finish b disposition r =>
    by_cases hsettles : p.settles b disposition = true
    · exact Or.inr ⟨b, disposition, r, rfl, hsettles⟩
    · have hstep : w.step (.finish b disposition r) = w.finishPublication p b disposition r := by
        rw [World.step_finish, hp]
        rfl
      rw [hstep] at hunfenced
      exact absurd (hunfenced.symm.trans (World.finishPublication_unsettled hsettles)) (by simp)
  | dropPublication r =>
    have hstep : w.step (.dropPublication r)
        = { w with held := { w.held with publication := none } }.apply r State.fence := by
      rw [World.step_dropPublication, hp]
      rfl
    rw [hstep] at hunfenced
    exact absurd (hunfenced.symm.trans (World.apply_fence r)) (by simp)
  | reservePhysicalWrite bytes maintenance r => exact Or.inl (hattempt (fun _ _ => rfl))
  | finishPhysicalWrite bytes r => exact Or.inl hp
  | archiveReceipt bytes historyBytes r => exact Or.inl hp
  | receiptProbe free r => exact Or.inl hp
  | observe r => exact Or.inl hp
  | close r => exact Or.inl hp
  | fence r => exact Or.inl hp

/-! ## The whole of a publication -/

namespace World

variable {w : World}

theorem attempt_config {change : State → Except ErrorCode (α × State)} {gain : α → Held → Held} :
    (w.attempt r change gain).config = w.config := by
  unfold attempt
  dsimp only
  split <;> rfl

/-- No step touches the configuration. -/
theorem step_config (e : Event) : (w.step e).config = w.config := by
  cases e <;> unfold step <;> dsimp only
  case acquire =>
    unfold enqueue
    dsimp only
    split <;> rfl
  case check =>
    split
    · split
      · unfold checkTask
        dsimp only
        split <;> rfl
      · rfl
    · rfl
  case finish =>
    split
    · unfold finishPublication
      dsimp only
      split
      · split <;> rfl
      · rfl
    · rfl
  all_goals first
    | rfl
    | exact attempt_config
    | (split <;> first | rfl | exact attempt_config | (split <;> rfl))

theorem run_config (events : List Event) : (w.run events).config = w.config := by
  induction events generalizing w with
  | nil => rfl
  | cons e events ih => exact (ih (w := w.step e)).trans (step_config e)

theorem booted_config {config : Config} {volume : Option String} {inventory : Inventory}
    {free : ℕ} : (booted config volume inventory free r).config = config :=
  attempt_config

end World

/-- **A publication is consumed whatever has happened since it was prepared.**
`w₁` has prepared it in `w₀`, `w₂` has come of `w₁` by any steps that left it and
did not fence. Its publication and its rollback succeed; they do what
`Consumed` says, once; the counts that agreed with the committed obligations
agree with them afterwards; a lease dropped later, after any steps, releases
no reservation again; and until it is consumed with a known outcome the
publication stays. -/
theorem publication_consumed (config : Config) (volume : Option String) (inventory : Inventory)
    (free : ℕ) (boot r₀ r : Reading) (before between : List Event) (read : Read)
    (changes : List Change) (terminals : List Terminal) (w₀ w₁ w₂ : World)
    (hw₀ : w₀ = (World.booted config volume inventory free boot).run before)
    (hw₁ : w₁ = w₀.step (.prepare read changes terminals .pending r₀)) (hw₂ : w₂ = w₁.run between)
    (p : Publication) (hnone : w₀.held.publication = none)
    (hprepared : w₁.held.publication = some p) (hleft : w₂.held.publication = some p)
    (hunfenced : (w₂.state.prepared r).2.receipts.fenced = false) :
    (∀ rollback disposition, disposition = (if rollback then .rolledBack else .committed) →
      ∃ s', (w₂.state.prepared r).2.finishPublication p rollback = .ok s'
        ∧ Consumed (w₀.state.prepared r₀).2 (w₂.state.prepared r).2 s' changes terminals p rollback
        ∧ (∀ committed committed' : TenantId → ℕ,
          (∀ u m, ((w₂.state.prepared r).2.counts u).unknown = some m → m = committed u) →
          (∀ u, (committed' u : ℤ) = committed u + net rollback (only u) changes) →
          ∀ u n, (s'.counts u).unknown = some n → n = committed' u)
        ∧ (w₂.step (.finish rollback disposition r)).state = (s'.concluded config.profile).2
        ∧ (w₂.step (.finish rollback disposition r)).held = { w₂.held with publication := none }
        ∧ (w₂.step (.finish rollback disposition r)).state.receipts.fenced = false)
      ∧ (∀ (after : List Event) (r' : Reading) (l : Lease),
        ((w₂.step (.finish false .committed r)).run after).state.receipts.fenced = false →
        l ∈ ((w₂.step (.finish false .committed r)).run after).held.leases →
        (∃ t ∈ terminals, (w₀.state.prepared r₀).2.source t.key = some l.completion) →
        ((((w₂.step (.finish false .committed r)).run after).state.prepared r').2.dropLease
          l).receipts.totals
          = (((w₂.step (.finish false .committed r)).run after).state.prepared
            r').2.receipts.totals)
      ∧ ∀ e, (w₂.step e).state.receipts.fenced = false →
        (w₂.step e).held.publication = some p
          ∨ ∃ rollback disposition r', e = .finish rollback disposition r'
            ∧ disposition = (if rollback then .rolledBack else .committed) := by
  have hopen : w₂.state.receipts.fenced = false := by
    cases hfence : w₂.state.receipts.fenced with
    | false => rfl
    | true =>
      exact absurd ((World.stable_fenced.prepared hfence r).symm.trans hunfenced) (by simp)
  have hconfig : w₂.config = config := by
    rw [hw₂, hw₁, hw₀, World.run_config, World.step_config, World.run_config]
    exact World.booted_config
  have hkept : Kept w₂ := by
    rw [hw₂, hw₁, hw₀]
    have hall := (Kept.booted config volume inventory free boot).run
      (before ++ [.prepare read changes terminals .pending r₀] ++ between)
    unfold World.run at hall ⊢
    rw [List.foldl_append, List.foldl_append] at hall
    refine hall ?_
    rw [hw₂, hw₁, hw₀] at hopen
    exact hopen
  -- what it was prepared for
  obtain ⟨steps, s₁, hsteps, hprep⟩ : ∃ steps s₁, readSteps changes terminals = .ok steps
      ∧ (w₀.state.prepared r₀).2.prepareUnknown read steps w₀.held.nextId = .ok (p, s₁) := by
    rw [hw₁] at hprepared
    unfold World.step at hprepared
    dsimp only at hprepared
    split at hprepared
    · rw [hnone] at hprepared
      exact absurd hprepared (by simp)
    · next steps hread =>
      rcases w₀.attempt_held r₀
        (fun s => s.prepareUnknown read steps w₀.held.nextId)
        (fun p o => { o with nextId := o.nextId + 1, publication := some p }) with heq
          | ⟨a, s₁, hok, heq⟩
      · rw [heq, hnone] at hprepared
        exact absurd hprepared (by simp)
      · rw [heq] at hprepared
        obtain rfl := Option.some.inj hprepared
        exact ⟨steps, s₁, hread, hok⟩
  have hfor := State.prepareUnknown_for hsteps hprep
  have hunfinished : p.finished = false := (hkept.prepared_of hleft).unfinished
  have hready := hkept.prepared r
  have hfinish : ∀ b disposition, w₂.step (.finish b disposition r)
      = w₂.finishPublication p b disposition r := by
    intro b disposition
    rw [World.step_finish, hleft]
    rfl
  have hconsume : ∀ b disposition, disposition = (if b then .rolledBack else .committed) →
      ∃ s', (w₂.state.prepared r).2.finishPublication p b = .ok s'
        ∧ Consumed (w₀.state.prepared r₀).2 (w₂.state.prepared r).2 s' changes terminals p b
        ∧ (w₂.step (.finish b disposition r)).state = (s'.concluded config.profile).2
        ∧ (w₂.step (.finish b disposition r)).held = { w₂.held with publication := none }
        ∧ (w₂.step (.finish b disposition r)).state.receipts.fenced = false := by
    intro b disposition hdisposition
    obtain ⟨s', hok, hs', hconsumed⟩ := hready.consumed (b := b) hleft hunfenced hfor
    have hsettles : p.settles b disposition = true := by
      unfold Publication.settles
      rw [hunfinished, hdisposition]
      simp
    obtain ⟨hstate, hheld⟩ := World.finishPublication_ok hsettles hok
    rw [hfinish, hstate, hheld, hconfig]
    exact ⟨s', hok, hconsumed, rfl, rfl, (concluded_fenced _ _).trans hs'⟩
  refine ⟨fun b disposition hdisposition => ?_, fun after r' l hafter hl hsource => ?_,
    fun e he => ?_⟩
  · obtain ⟨s', hok, hconsumed, hstate, hheld, hopen'⟩ := hconsume b disposition hdisposition
    exact ⟨s', hok, hconsumed, fun _ _ hbefore houtcome u n hn =>
      hconsumed.agreement hbefore houtcome hn, hstate, hheld, hopen'⟩
  · obtain ⟨s', hok, hconsumed, hstate, -, hopen'⟩ := hconsume false .committed rfl
    obtain ⟨t, ht, howner⟩ := hsource
    have hkept₃ := hkept.step (.finish false .committed r) hopen'
    have hdone : ((w₂.step (.finish false .committed r)).state.completions l.completion).done
        = true := by
      rw [hstate]
      exact ((Onward.stable s').concluded (Onward.refl s') _).done _
        (hconsumed.completed rfl t ht _ howner)
    have hlater := hkept₃.run_done hdone after hafter
    have hkept₄ := (hkept₃.run after hafter).prepared r'
    obtain ⟨s'', hrelease, -⟩ := hkept₄.releaseLease hl
    exact State.dropLease_totals hrelease
      (((Onward.stable _).prepared (Onward.refl _) r').done _ hlater)
  · rcases hkept.step_publication hleft e he with hstays | ⟨b, disposition, r', rfl, hsettles⟩
    · exact Or.inl hstays
    · refine Or.inr ⟨b, disposition, r', rfl, ?_⟩
      unfold Publication.settles at hsettles
      rw [hunfinished] at hsettles
      simpa using hsettles

/-! ## One publication -/

deriving instance DecidableEq for TenantChange, Publication

namespace Sample

/-- A lease is granted and bound. -/
def granted : List Event :=
  [.tryAcquire alice ⟨1, 1⟩ 50 (reading 1), .bind lease job.execution (reading 2)]

def recorded : List Change := [{ key := job, before := none, after := some job }]

def receipts : List Terminal := [{ key := job, bytes := 500 }]

/-- Its completion is about to be committed. -/
def committing : World :=
  (booted.run granted).step (.prepare ⟨0, true⟩ recorded receipts .pending (reading 2))

def publication : Publication := committing.held.publication.get (by decide +kernel)

theorem committing_publication : committing.held.publication = some publication :=
  (Option.some_get (by decide +kernel)).symm

/-- The lease is dropped before the commit is known. -/
def dropped : World := committing.run [.dropLease lease (reading 3)]

end Sample

open Sample in
theorem publication_consumed_dropped :
    ∃ s', (dropped.state.prepared (reading 4)).2.finishPublication publication false = .ok s'
      ∧ Consumed ((booted.run granted).state.prepared (reading 2)).2
        (dropped.state.prepared (reading 4)).2 s' recorded receipts publication false := by
  obtain ⟨s', hok, hconsumed, -⟩ := (publication_consumed config none ⟨0, 0, 0, 0, 0⟩ (2 ^ 60)
    ⟨none, 0, 0⟩ (reading 2) (reading 4) granted [.dropLease lease (reading 3)] ⟨0, true⟩
    recorded receipts (booted.run granted) committing dropped rfl rfl rfl publication
    (by decide +kernel) committing_publication (by decide +kernel) (by decide +kernel)).1 false
    .committed rfl
  exact ⟨s', hok, hconsumed⟩

end BitRouter.Admission
