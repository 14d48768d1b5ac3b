import BitRouter.Admission.Custody

/-!
# What publications and repairs do to the custody

A publication claims the entries its steps are about when it is prepared, and
settles every one of them when it is finished: the entry keeps its
reservation, or its owner is completed, or it goes with a lease that has been
dropped. A repair enters one entry for each of its rows and takes them out
again.
-/

namespace BitRouter.Admission

open Tenancy

variable {k : Key} {steps : List Step}

namespace Custody

variable {c : Custody} {p : TenantId → Bool} {κ : Kind} {b : Bool}

/-! ## The steps of a publication -/

/-- **The entry a step has claimed**: it is the step's own until the outcome
is known. -/
structure Claimed (c : Custody) (step : Step) (live : Live) : Prop where
  entry : c.entries[step.key]? = some live
  owner : step.owner = some live.owner
  pending : live.pending = true
  covered : live.covered = step.before
  undone : (c.completions live.owner).done = false
  terminal : live.repair = true → step.terminal = none

/-- Every step with an owner has claimed its entry. -/
def Claims (c : Custody) (steps : List Step) : Prop :=
  ∀ step ∈ steps, step.owner.isSome → ∃ live, c.Claimed step live

def settle (rollback : Bool) (c : Custody) (step : Step) : Custody :=
  match step.owner, c.entries[step.key]? with
  | some _, some live =>
    let c' := if (!rollback && step.terminal.isSome) || live.dropped then c.complete live.owner
      else c
    { c' with entries :=
        if live.dropped then c.entries.erase step.key
        else c.entries.insert step.key (settleEntry rollback step live) }
  | _, _ => c

def claimShare (c : Custody) (p : TenantId → Bool) (kind : Kind) (step : Step) : ℕ :=
  match step.owner, c.entries[step.key]? with
  | some _, some live => c.entryShare p kind step.key live
  | _, _ => 0

/-- What it is charged after it. -/
def settledShare (rollback : Bool) (c : Custody) (p : TenantId → Bool) (kind : Kind)
    (step : Step) : ℕ :=
  match step.owner, c.entries[step.key]? with
  | some _, some live =>
    if p step.key.tenant && !live.dropped then
      (settleEntry rollback step live).share (!rollback && step.terminal.isSome) kind
    else 0
  | _, _ => 0

@[simp] theorem settleEntry_owner (step : Step) (live : Live) :
    (settleEntry b step live).owner = live.owner := by
  unfold settleEntry
  split <;> rfl

@[simp] theorem settleEntry_repair (step : Step) (live : Live) :
    (settleEntry b step live).repair = live.repair := by
  unfold settleEntry
  split <;> rfl

@[simp] theorem settleEntry_dropped (step : Step) (live : Live) :
    (settleEntry b step live).dropped = live.dropped := by
  unfold settleEntry
  split <;> rfl

@[simp] theorem settleEntry_pending (step : Step) (live : Live) :
    (settleEntry b step live).pending = false := by
  unfold settleEntry
  split <;> rfl

theorem settle_of_unowned {step : Step} (h : step.owner = none) : c.settle b step = c := by
  simp [settle, h]

section Settle

variable {step : Step} {live : Live}

theorem Claimed.settle_entries (h : c.Claimed step live) :
    (c.settle b step).entries
      = if live.dropped then c.entries.erase step.key
        else c.entries.insert step.key (settleEntry b step live) := by
  unfold settle
  rw [h.entry, h.owner]

theorem Claimed.settle_completions (h : c.Claimed step live) :
    (c.settle b step).completions
      = if (!b && step.terminal.isSome) || live.dropped then
          (c.complete live.owner).completions
        else c.completions := by
  unfold settle
  rw [h.entry, h.owner]
  dsimp only
  split <;> rfl

theorem settle_leases (step : Step) : (c.settle b step).leases = c.leases := by
  unfold settle
  split
  · dsimp only
    split <;> rfl
  · rfl

theorem settle_repairs (step : Step) : (c.settle b step).repairs = c.repairs := by
  unfold settle
  split
  · dsimp only
    split <;> rfl
  · rfl

theorem settle_nextId (step : Step) : (c.settle b step).nextId = c.nextId := by
  unfold settle
  split
  · dsimp only
    split <;> rfl
  · rfl

/-- Settling never touches what an address is bound to. -/
theorem settle_execution (step : Step) (id : ℕ) :
    ((c.settle b step).completions id).execution = (c.completions id).execution := by
  unfold settle
  split
  · dsimp only
    split
    · exact complete_execution _ _
    · rfl
  · rfl

/-- The entries after a settled step: the others, and its own unless its
lease has been dropped. -/
theorem Claimed.get_settle (h : c.Claimed step live) {v : Live} :
    (c.settle b step).entries[k]? = some v ↔
      (k = step.key ∧ live.dropped = false ∧ v = settleEntry b step live)
        ∨ (k ≠ step.key ∧ c.entries[k]? = some v) := by
  rw [h.settle_entries]
  cases hd : live.dropped with
  | true => simp [get_erase]
  | false => simp [get_insert]

theorem Claimed.settle_completion_ne (h : c.Claimed step live) {id : ℕ} (hid : id ≠ live.owner) :
    (c.settle b step).completions id = c.completions id := by
  rw [h.settle_completions]
  split
  · exact complete_ne hid
  · rfl

theorem Claimed.settle_done_self (h : c.Claimed step live) :
    ((c.settle b step).completions live.owner).done
      = ((!b && step.terminal.isSome) || live.dropped) := by
  rw [h.settle_completions]
  split
  · next hdone => rw [hdone, complete_done_self]
  · next hdone => rw [h.undone, Bool.eq_false_iff.mpr hdone]

/-- **Settling a step keeps the custody sound.** -/
theorem Sound.settle_claimed (hs : c.Sound) (h : c.Claimed step live) :
    (c.settle b step).Sound := by
  have hlive := hs.entry step.key live h.entry
  have hne : ∀ (k : Key) (v : Live), k ≠ step.key → c.entries[k]? = some v →
      v.owner ≠ live.owner := fun k v hk hv => hs.owner_ne_of_ne h.entry hv hk
  refine
    { fresh := fun id hid => ?_
      lease_lt := ?_
      lease_nodup := ?_
      unbound := fun l hl hx => ?_
      bound := fun l hl x hx => ?_
      entry := fun k v hk => ?_
      held := fun k v hk hr hd => ?_
      loose := fun k v hk hloose => ?_
      dropped := fun k v hk hd => ?_
      inj := fun k k' v v' hk hk' hv => ?_
      repair_nodup := ?_
      repair_entry := fun r hr k hk => ?_ }
  · rw [settle_nextId] at hid
    rw [h.settle_completion_ne (Nat.ne_of_gt (lt_of_lt_of_le hlive.1 hid))]
    exact hs.fresh id hid
  · rw [settle_leases, settle_nextId]
    exact hs.lease_lt
  · rw [settle_leases]
    exact hs.lease_nodup
  · rw [settle_leases] at hl
    rw [settle_execution] at hx
    have hid : l.completion ≠ live.owner := by
      intro heq
      rw [heq, hlive.2] at hx
      exact absurd hx (by simp)
    rw [h.settle_completion_ne hid]
    exact hs.unbound l hl hx
  · rw [settle_leases] at hl
    rw [settle_execution] at hx
    obtain ⟨v, hv, howner, hrepair, hdropped⟩ := hs.bound l hl x hx
    by_cases hk : (⟨l.tenant, x⟩ : Key) = step.key
    · rw [hk, h.entry] at hv
      obtain rfl := Option.some.inj hv
      exact ⟨_, h.get_settle.mpr (Or.inl ⟨hk, hdropped, rfl⟩), by simpa using howner,
        by simpa using hrepair, by simpa using hdropped⟩
    · exact ⟨v, h.get_settle.mpr (Or.inr ⟨hk, hv⟩), howner, hrepair, hdropped⟩
  · rw [settle_nextId, settle_execution]
    rcases h.get_settle.mp hk with ⟨rfl, -, rfl⟩ | ⟨-, hv⟩
    · simpa using hlive
    · exact hs.entry k v hv
  · rw [settle_leases]
    rcases h.get_settle.mp hk with ⟨rfl, hdropped, rfl⟩ | ⟨-, hv⟩
    · simpa using hs.held step.key live h.entry (by simpa using hr) hdropped
    · exact hs.held k v hv hr hd
  · rw [settle_leases]
    rcases h.get_settle.mp hk with ⟨rfl, hdropped, rfl⟩ | ⟨hk', hv⟩
    · have hrepair : live.repair = true := by simpa [hdropped] using hloose
      obtain ⟨-, hlease⟩ := hs.loose step.key live h.entry (Or.inl hrepair)
      refine ⟨?_, by simpa using hlease⟩
      rw [settleEntry_owner, h.settle_done_self, h.terminal hrepair, hdropped]
      simp
    · obtain ⟨hdone, hlease⟩ := hs.loose k v hv hloose
      rw [h.settle_completion_ne (hne k v hk' hv)]
      exact ⟨hdone, hlease⟩
  · rcases h.get_settle.mp hk with ⟨rfl, hdropped, rfl⟩ | ⟨-, hv⟩
    · simp [hdropped] at hd
    · exact hs.dropped k v hv hd
  · rcases h.get_settle.mp hk with ⟨rfl, -, rfl⟩ | ⟨hne', hk₁⟩
    · rcases h.get_settle.mp hk' with ⟨rfl, -, rfl⟩ | ⟨-, hk₂⟩
      · rfl
      · exact hs.inj _ _ live v' h.entry hk₂ (by simpa using hv)
    · rcases h.get_settle.mp hk' with ⟨rfl, -, rfl⟩ | ⟨-, hk₂⟩
      · exact hs.inj _ _ v live hk₁ h.entry (by simpa using hv)
      · exact hs.inj k k' v v' hk₁ hk₂ hv
  · rw [settle_repairs]
    exact hs.repair_nodup
  · rw [settle_repairs] at hr
    obtain ⟨htenant, v, hv, hrepair⟩ := hs.repair_entry r hr k hk
    refine ⟨htenant, ?_⟩
    by_cases hkey : k = step.key
    · rw [hkey, h.entry] at hv
      obtain rfl := Option.some.inj hv
      have hdropped : live.dropped = false := by
        cases hd : live.dropped with
        | false => rfl
        | true => exact absurd (hs.dropped _ _ h.entry hd).2 (by simp [hrepair])
      exact ⟨_, h.get_settle.mpr (Or.inl ⟨hkey, hdropped, rfl⟩), by simpa using hrepair⟩
    · exact ⟨v, h.get_settle.mpr (Or.inr ⟨hkey, hv⟩), hrepair⟩

/-- **Settling a step exchanges the charge of its entry.** -/
theorem Sound.load_settle_claimed (hs : c.Sound) (h : c.Claimed step live) :
    (c.settle b step).load p κ + c.claimShare p κ step
      = c.load p κ + c.settledShare b p κ step := by
  have hleases : (c.settle b step).leases.map ((c.settle b step).leaseShare p κ)
      = c.leases.map (c.leaseShare p κ) := by
    rw [settle_leases]
    refine List.map_congr_left (fun l _ => ?_)
    unfold leaseShare
    have hx := settle_execution (c := c) (b := b) step l.completion
    cases κ <;> simp [Completion.share, hx]
  have hothers : ∀ (m : Std.TreeMap Key Live), (∀ (k : Key) (v : Live), m[k]? = some v →
      k ≠ step.key ∧ c.entries[k]? = some v) →
      entryTotal ((c.settle b step).entryShare p κ) m
        = entryTotal (c.entryShare p κ) m := by
    intro m hm
    refine entryTotal_congr (fun k v hk => ?_)
    obtain ⟨hne, hv⟩ := hm k v hk
    unfold entryShare
    rw [h.settle_completion_ne (hs.owner_ne_of_ne h.entry hv hne)]
  have herase := hothers (c.entries.erase step.key) (fun k v hk => get_erase.mp hk)
  have hold := entryTotal_erase (c.entryShare p κ) c.entries step.key
  rw [entryAt_of_get h.entry] at hold
  have hclaim : c.claimShare p κ step = c.entryShare p κ step.key live := by
    unfold claimShare
    rw [h.entry, h.owner]
  have hsettled : c.settledShare b p κ step
      = if p step.key.tenant && !live.dropped then
          (settleEntry b step live).share (!b && step.terminal.isSome) κ
        else 0 := by
    unfold settledShare
    rw [h.entry, h.owner]
  rw [hclaim, hsettled]
  unfold load
  rw [hleases, h.settle_entries]
  cases hd : live.dropped with
  | true =>
    simp only [if_true, herase, Bool.not_true, Bool.and_false, Bool.false_eq_true, if_false]
    omega
  | false =>
    have hsplit : entryTotal ((c.settle b step).entryShare p κ)
          (c.entries.insert step.key (settleEntry b step live))
        = entryTotal ((c.settle b step).entryShare p κ) (c.entries.erase step.key)
          + (c.settle b step).entryShare p κ step.key
            (settleEntry b step live) := by
      have hins := entryTotal_insert ((c.settle b step).entryShare p κ) c.entries
        step.key (settleEntry b step live)
      have her := entryTotal_erase ((c.settle b step).entryShare p κ) c.entries
        step.key
      omega
    have hnew : (c.settle b step).entryShare p κ step.key
          (settleEntry b step live)
        = if p step.key.tenant then
            (settleEntry b step live).share (!b && step.terminal.isSome) κ
          else 0 := by
      unfold entryShare
      rw [settleEntry_owner, h.settle_done_self, hd, Bool.or_false]
    simp only [Bool.false_eq_true, if_false, Bool.not_false, Bool.and_true]
    omega

end Settle

/-! ## All the steps -/

section

variable {live live' : Live} {step step' : Step} (hs : c.Sound) (h : c.Claimed step live)
  (h' : c.Claimed step' live') (hne : step'.key ≠ step.key)

include hs h h' hne

theorem Claimed.of_settle :
    (c.settle b step).Claimed step' live' where
  entry := h.get_settle.mpr (Or.inr ⟨hne, h'.entry⟩)
  owner := h'.owner
  pending := h'.pending
  covered := h'.covered
  undone := by
    rw [h.settle_completion_ne (hs.owner_ne_of_ne h.entry h'.entry hne)]
    exact h'.undone
  terminal := h'.terminal

theorem Claimed.shares_settle :
    (c.settle b step).claimShare p κ step' = c.claimShare p κ step'
      ∧ (c.settle b step).settledShare b p κ step'
        = c.settledShare b p κ step' := by
  have hentry := (h.of_settle (b := b) hs h' hne).entry
  constructor
  · unfold claimShare
    rw [hentry, h'.entry, h'.owner]
    dsimp only [entryShare]
    rw [h.settle_completion_ne (hs.owner_ne_of_ne h.entry h'.entry hne)]
  · unfold settledShare
    rw [hentry, h'.entry, h'.owner]

end

theorem Sound.claims_settle (hs : c.Sound) {step : Step}
    (hnodup : (step.key :: steps.map Step.key).Nodup) (h : c.Claims (step :: steps)) :
    (c.settle b step).Sound ∧ (c.settle b step).Claims steps := by
  obtain ⟨hstep, hsteps⟩ := List.forall_mem_cons.mp h
  have hkey : ∀ step' ∈ steps, step'.key ≠ step.key := fun step' hmem heq =>
    (List.nodup_cons.mp hnodup).1 (heq ▸ List.mem_map_of_mem hmem)
  cases howner : step.owner with
  | none => rw [settle_of_unowned howner]; exact ⟨hs, hsteps⟩
  | some id =>
    obtain ⟨live, hlive⟩ := hstep (by rw [howner]; rfl)
    refine ⟨hs.settle_claimed hlive, fun step' hmem hsome => ?_⟩
    obtain ⟨live', hlive'⟩ := hsteps step' hmem hsome
    exact ⟨live', hlive.of_settle hs hlive' (hkey step' hmem)⟩

section

variable (hs : c.Sound) (hnodup : (steps.map Step.key).Nodup) (h : c.Claims steps)

include hs hnodup h

/-- **Settling every step keeps the custody sound.** -/
theorem Sound.settleAll :
    (steps.foldl (settle b) c).Sound := by
  induction steps generalizing c with
  | nil => exact hs
  | cons step steps ih =>
    obtain ⟨hs', h'⟩ := hs.claims_settle (b := b) hnodup h
    exact ih hs' (List.nodup_cons.mp hnodup).2 h'

/-- **Settling every step exchanges the charges of all their entries.** -/
theorem Sound.load_settleAll :
    (steps.foldl (settle b) c).load p κ + (steps.map (c.claimShare p κ)).sum
      = c.load p κ + (steps.map (c.settledShare b p κ)).sum := by
  induction steps generalizing c with
  | nil => rfl
  | cons step steps ih =>
    obtain ⟨hs', h'⟩ := hs.claims_settle (b := b) hnodup h
    obtain ⟨hstep, hsteps⟩ := List.forall_mem_cons.mp h
    have hkey : ∀ step' ∈ steps, step'.key ≠ step.key := fun step' hmem heq =>
      (List.nodup_cons.mp hnodup).1 (heq ▸ List.mem_map_of_mem hmem)
    have hrest := ih hs' (List.nodup_cons.mp hnodup).2 h'
    rw [List.foldl_cons, List.map_cons, List.map_cons, List.sum_cons, List.sum_cons]
    cases howner : step.owner with
    | none =>
      have hzero : c.claimShare p κ step = 0 ∧ c.settledShare b p κ step = 0 := by
        constructor
        · simp [claimShare, howner]
        · simp [settledShare, howner]
      rw [settle_of_unowned howner] at hrest ⊢
      omega
    | some id =>
      obtain ⟨live, hlive⟩ := hstep (by rw [howner]; rfl)
      have hone := hs.load_settle_claimed (p := p) (κ := κ) (b := b) hlive
      have hshares : ∀ step' ∈ steps,
          (c.settle b step).claimShare p κ step' = c.claimShare p κ step'
          ∧ (c.settle b step).settledShare b p κ step'
            = c.settledShare b p κ step' := by
        intro step' hmem
        cases howner' : step'.owner with
        | none => simp [claimShare, settledShare, howner']
        | some id' =>
          obtain ⟨live', hlive'⟩ := hsteps step' hmem (by rw [howner']; rfl)
          exact hlive.shares_settle hs hlive' (hkey step' hmem)
      rw [List.map_congr_left (fun s hmem => (hshares s hmem).1),
        List.map_congr_left (fun s hmem => (hshares s hmem).2)] at hrest
      omega

/-- An entry that is still claimed after a run of settled steps was claimed by
none of them. -/
theorem Sound.pending_settleAll {live : Live}
    (hk : (steps.foldl (settle b) c).entries[k]? = some live) (hpending : live.pending = true) :
    c.entries[k]? = some live ∧ ∀ step ∈ steps, step.owner.isSome → step.key ≠ k := by
  induction steps generalizing c with
  | nil => exact ⟨hk, by simp⟩
  | cons step steps ih =>
    obtain ⟨hs', h'⟩ := hs.claims_settle (b := b) hnodup h
    obtain ⟨hold, hrest⟩ := ih hs' (List.nodup_cons.mp hnodup).2 h' hk
    cases howner : step.owner with
    | none =>
      rw [settle_of_unowned howner] at hold
      exact ⟨hold, List.forall_mem_cons.mpr ⟨by simp [howner], hrest⟩⟩
    | some id =>
      obtain ⟨v, hv⟩ := h step List.mem_cons_self (by rw [howner]; rfl)
      rcases hv.get_settle.mp hold with ⟨-, -, rfl⟩ | ⟨hne, hold'⟩
      · simp at hpending
      · exact ⟨hold', List.forall_mem_cons.mpr ⟨fun _ => Ne.symm hne, hrest⟩⟩

end

/-! ## Claiming the entries -/

def markPending (c : Custody) (step : Step) : Custody :=
  match step.owner, c.entries[step.key]? with
  | some _, some live =>
    { c with entries := c.entries.insert step.key { live with pending := true } }
  | _, _ => c

theorem Sound.markPending (hs : c.Sound) (step : Step) : (c.markPending step).Sound := by
  unfold Custody.markPending
  split
  · next live _ hlive =>
    refine
      { fresh := hs.fresh
        lease_lt := hs.lease_lt
        lease_nodup := hs.lease_nodup
        unbound := hs.unbound
        bound := fun l hl x hx => ?_
        entry := fun k v hk => ?_
        held := fun k v hk => ?_
        loose := fun k v hk => ?_
        dropped := fun k v hk hd => ?_
        inj := fun k k' v v' hk hk' howner => ?_
        repair_nodup := hs.repair_nodup
        repair_entry := fun r hr k hk => ?_ }
    · obtain ⟨v, hv, hrest⟩ := hs.bound l hl x hx
      by_cases hkey : (⟨l.tenant, x⟩ : Key) = step.key
      · rw [hkey, hlive] at hv
        obtain rfl := Option.some.inj hv
        exact ⟨_, get_insert.mpr (Or.inl ⟨hkey, rfl⟩), hrest⟩
      · exact ⟨v, get_insert.mpr (Or.inr ⟨hkey, hv⟩), hrest⟩
    · rcases get_insert.mp hk with ⟨rfl, rfl⟩ | ⟨-, hv⟩
      · exact hs.entry step.key live hlive
      · exact hs.entry k v hv
    · rcases get_insert.mp hk with ⟨rfl, rfl⟩ | ⟨-, hv⟩
      · exact hs.held step.key live hlive
      · exact hs.held k v hv
    · rcases get_insert.mp hk with ⟨rfl, rfl⟩ | ⟨-, hv⟩
      · exact hs.loose step.key live hlive
      · exact hs.loose k v hv
    · rcases get_insert.mp hk with ⟨rfl, rfl⟩ | ⟨-, hv⟩
      · exact ⟨rfl, (hs.dropped step.key live hlive hd).2⟩
      · exact hs.dropped k v hv hd
    · rcases get_insert.mp hk with ⟨rfl, rfl⟩ | ⟨-, hk₁⟩
      · rcases get_insert.mp hk' with ⟨rfl, rfl⟩ | ⟨-, hk₂⟩
        · rfl
        · exact hs.inj _ _ live v' hlive hk₂ howner
      · rcases get_insert.mp hk' with ⟨rfl, rfl⟩ | ⟨-, hk₂⟩
        · exact hs.inj _ _ v live hk₁ hlive howner
        · exact hs.inj k k' v v' hk₁ hk₂ howner
    · obtain ⟨htenant, v, hv, hrepair⟩ := hs.repair_entry r hr k hk
      refine ⟨htenant, ?_⟩
      by_cases hkey : k = step.key
      · rw [hkey, hlive] at hv
        obtain rfl := Option.some.inj hv
        exact ⟨_, get_insert.mpr (Or.inl ⟨hkey, rfl⟩), hrepair⟩
      · exact ⟨v, get_insert.mpr (Or.inr ⟨hkey, hv⟩), hrepair⟩
  · exact hs

/-- A mark changes no charge. -/
theorem load_markPending (step : Step) : (c.markPending step).load p κ = c.load p κ := by
  unfold Custody.markPending
  split
  · next live _ hlive =>
    have hins := entryTotal_insert (c.entryShare p κ) c.entries step.key
      { live with pending := true }
    have hsame : c.entryShare p κ step.key { live with pending := true }
        = c.entryShare p κ step.key live := by
      cases κ <;> rfl
    rw [entryAt_of_get hlive, hsame] at hins
    show (c.leases.map (c.leaseShare p κ)).sum
      + entryTotal (c.entryShare p κ) (c.entries.insert step.key _) = _
    unfold load
    omega
  · rfl

theorem Sound.markAll (hs : c.Sound) (steps : List Step) :
    (steps.foldl Custody.markPending c).Sound := by
  induction steps generalizing c with
  | nil => exact hs
  | cons step steps ih => exact ih (hs.markPending step)

theorem load_markAll (steps : List Step) :
    (steps.foldl Custody.markPending c).load p κ = c.load p κ := by
  induction steps generalizing c with
  | nil => rfl
  | cons step steps ih => exact ih.trans (load_markPending step)

/-- A mark touches the entries only. -/
theorem markAll_eq (steps : List Step) :
    steps.foldl Custody.markPending c
      = { c with entries := (steps.foldl Custody.markPending c).entries } := by
  induction steps generalizing c with
  | nil => rfl
  | cons step steps ih =>
    rw [List.foldl_cons, ih]
    have hone : c.markPending step = { c with entries := (c.markPending step).entries } := by
      unfold Custody.markPending
      split <;> rfl
    rw [hone]

/-- **An entry after the marks**: the same entry, pending where a step with an
owner is about it. -/
theorem get_markAll :
    (steps.foldl Custody.markPending c).entries[k]?
      = (c.entries[k]?).map (fun live =>
          if ∃ step ∈ steps, step.owner.isSome ∧ step.key = k then { live with pending := true }
          else live) := by
  induction steps generalizing c with
  | nil => simp
  | cons step steps ih =>
    have hone : (c.markPending step).entries[k]? = (c.entries[k]?).map (fun live =>
        if step.owner.isSome ∧ step.key = k then { live with pending := true } else live) := by
      unfold Custody.markPending
      cases howner : step.owner with
      | none => simp
      | some id =>
        cases hget : c.entries[step.key]? with
        | none =>
          by_cases hk : step.key = k
          · rw [← hk, hget]
            rfl
          · simp [hk]
        | some live =>
          by_cases hk : step.key = k
          · subst hk
            simp [hget]
          · have hne : compare step.key k ≠ .eq := by
              rwa [ne_eq, Std.LawfulEqOrd.compare_eq_iff_eq]
            rw [Std.TreeMap.getElem?_insert, if_neg hne]
            simp [hk]
    rw [List.foldl_cons, ih, hone, Option.map_map]
    refine Option.map_congr (fun live _ => ?_)
    by_cases hhead : step.owner.isSome ∧ step.key = k
    · have hany : ∃ s ∈ step :: steps, s.owner.isSome ∧ s.key = k :=
        ⟨step, List.mem_cons_self, hhead⟩
      split <;> rfl
    · have hiff : (∃ s ∈ step :: steps, s.owner.isSome ∧ s.key = k)
          ↔ ∃ s ∈ steps, s.owner.isSome ∧ s.key = k := by
        rw [List.exists_mem_cons_iff]
        exact or_iff_right hhead
      rw [Function.comp_apply, if_neg hhead]
      by_cases hrest : ∃ s ∈ steps, s.owner.isSome ∧ s.key = k
      · rw [if_pos hrest, if_pos (hiff.mpr hrest)]
      · rw [if_neg hrest, if_neg (mt hiff.mp hrest)]

/-! ## The rows of a repair -/

/-- Enter one row, for the next address. -/
def enter (c : Custody) (row : Key × Live) : Custody :=
  { c with
    entries := c.entries.insert row.1 row.2
    completions := Function.update c.completions row.2.owner { execution := some row.1.execution }
    nextId := c.nextId + 1 }

/-- Take one row out. -/
def leave (c : Custody) (k : Key) : Custody := { c with entries := c.entries.erase k }

/-- The charge of a row. -/
def rowShare (covered : Bool) : Kind → ℕ :=
  ({ owner := 0, covered := covered, repair := true } : Live).share false

section Rows

variable {tenant : TenantId} {execution : ExecutionId} {covered : Bool}

theorem enter_completion_ne {row : Key × Live} {id : ℕ} (hid : id ≠ row.2.owner) :
    (c.enter row).completions id = c.completions id :=
  Function.update_of_ne hid _ _

theorem Sound.load_enter (hs : c.Sound) (hk : c.entries[k]? = none) :
    (c.enter (k, { owner := c.nextId, covered := covered, repair := true })).load p κ
      = c.load p κ + if p k.tenant then rowShare covered κ else 0 := by
  set row : Key × Live := (k, { owner := c.nextId, covered := covered, repair := true })
  have hleases : c.leases.map ((c.enter row).leaseShare p κ)
      = c.leases.map (c.leaseShare p κ) :=
    List.map_congr_left (fun l hl => by
      unfold leaseShare
      rw [enter_completion_ne (Nat.ne_of_lt (hs.lease_lt l hl))])
  have hentries : entryTotal ((c.enter row).entryShare p κ) c.entries
      = entryTotal (c.entryShare p κ) c.entries :=
    entryTotal_congr (fun k' live hk' => by
      unfold entryShare
      rw [enter_completion_ne (Nat.ne_of_lt (hs.entry k' live hk').1)])
  have hins := entryTotal_insert ((c.enter row).entryShare p κ) c.entries k row.2
  have hnew : (c.enter row).entryShare p κ k row.2
      = if p k.tenant then rowShare covered κ else 0 := by
    have hdone : ((c.enter row).completions row.2.owner).done = false := by
      simp [enter]
    unfold entryShare
    rw [hdone]
    cases κ <;> rfl
  rw [entryAt_of_absent hk, hentries, hnew] at hins
  show (c.leases.map ((c.enter row).leaseShare p κ)).sum
    + entryTotal ((c.enter row).entryShare p κ) (c.entries.insert k row.2) = _
  rw [hleases]
  unfold load
  omega

theorem Sound.enter (hs : c.Sound) {k : Key} (hk : c.entries[k]? = none) :
    (c.enter (k, { owner := c.nextId, covered := covered, repair := true })).Sound := by
  set row : Key × Live := (k, { owner := c.nextId, covered := covered, repair := true })
  have hold : ∀ (k' : Key) (live : Live), c.entries[k']? = some live →
      live.owner ≠ row.2.owner := fun k' live hk' => Nat.ne_of_lt (hs.entry k' live hk').1
  have hlease : ∀ l ∈ c.leases, l.completion ≠ row.2.owner :=
    fun l hl => Nat.ne_of_lt (hs.lease_lt l hl)
  have hkeep : ∀ (k' : Key) (live : Live), c.entries[k']? = some live →
      (c.enter row).entries[k']? = some live := fun k' live hk' =>
    get_insert.mpr (Or.inr ⟨fun heq => by rw [heq, hk] at hk'; exact absurd hk' (by simp), hk'⟩)
  refine
    { fresh := fun id hid => ?_
      lease_lt := fun l hl => Nat.lt_succ_of_lt (hs.lease_lt l hl)
      lease_nodup := hs.lease_nodup
      unbound := fun l hl hx => ?_
      bound := fun l hl x hx => ?_
      entry := fun k' v hk' => ?_
      held := fun k' v hk' hr hd => ?_
      loose := fun k' v hk' hloose => ?_
      dropped := fun k' v hk' hd => ?_
      inj := fun k₁ k₂ v₁ v₂ hk₁ hk₂ howner => ?_
      repair_nodup := hs.repair_nodup
      repair_entry := fun r hr k' hk' => ?_ }
  · rw [enter_completion_ne (Nat.ne_of_gt hid)]
    exact hs.fresh id (Nat.le_of_succ_le hid)
  · rw [enter_completion_ne (hlease l hl)] at hx ⊢
    exact hs.unbound l hl hx
  · rw [enter_completion_ne (hlease l hl)] at hx
    obtain ⟨v, hv, hrest⟩ := hs.bound l hl x hx
    exact ⟨v, hkeep _ _ hv, hrest⟩
  · rcases get_insert.mp hk' with ⟨rfl, rfl⟩ | ⟨-, hv⟩
    · exact ⟨Nat.lt_succ_self _, by simp [Custody.enter, row]⟩
    · rw [enter_completion_ne (hold k' v hv)]
      exact ⟨Nat.lt_succ_of_lt (hs.entry k' v hv).1, (hs.entry k' v hv).2⟩
  · rcases get_insert.mp hk' with ⟨rfl, rfl⟩ | ⟨-, hv⟩
    · simp [row] at hr
    · exact hs.held k' v hv hr hd
  · rcases get_insert.mp hk' with ⟨rfl, rfl⟩ | ⟨-, hv⟩
    · exact ⟨by simp [Custody.enter, row], hlease⟩
    · rw [enter_completion_ne (hold k' v hv)]
      exact hs.loose k' v hv hloose
  · rcases get_insert.mp hk' with ⟨rfl, rfl⟩ | ⟨-, hv⟩
    · simp [row] at hd
    · exact hs.dropped k' v hv hd
  · rcases get_insert.mp hk₁ with ⟨rfl, rfl⟩ | ⟨-, hv₁⟩
    · rcases get_insert.mp hk₂ with ⟨rfl, rfl⟩ | ⟨-, hv₂⟩
      · rfl
      · exact absurd howner.symm (hold k₂ v₂ hv₂)
    · rcases get_insert.mp hk₂ with ⟨rfl, rfl⟩ | ⟨-, hv₂⟩
      · exact absurd howner (hold k₁ v₁ hv₁)
      · exact hs.inj k₁ k₂ v₁ v₂ hv₁ hv₂ howner
  · obtain ⟨htenant, v, hv, hrepair⟩ := hs.repair_entry r hr k' hk'
    exact ⟨htenant, v, hkeep _ _ hv, hrepair⟩

def rowsShare (rows : List (ExecutionId × Bool)) (kind : Kind) : ℕ :=
  (rows.map (fun row => rowShare row.2 kind)).sum

/-- **Entering the rows of a repair** charges them to its tenant. -/
theorem Sound.enterAll (hs : c.Sound) {rows : List (ExecutionId × Bool)}
    (hnodup : (rows.map Prod.fst).Nodup)
    (habsent : ∀ row ∈ rows, c.entries[(⟨tenant, row.1⟩ : Key)]? = none) :
    let c' := (repairRows tenant c.nextId rows).foldl Custody.enter c
    c'.Sound ∧ c'.nextId = c.nextId + rows.length ∧ c'.repairs = c.repairs
      ∧ c'.leases = c.leases
      ∧ (∀ p κ, c'.load p κ
          = c.load p κ + if p tenant then rowsShare rows κ else 0)
      ∧ (∀ (k : Key) (live : Live), c.entries[k]? = some live → c'.entries[k]? = some live)
      ∧ (∀ row ∈ rows, ∃ live : Live, c'.entries[(⟨tenant, row.1⟩ : Key)]? = some live
          ∧ live.repair = true)
      ∧ (∀ (k : Key) (live : Live), c'.entries[k]? = some live →
          c.entries[k]? = some live ∨ live.pending = false) := by
  induction rows generalizing c with
  | nil => exact ⟨hs, rfl, rfl, rfl, fun p κ => by simp [repairRows, rowsShare],
      fun _ _ h => h, by simp, fun _ _ h => Or.inl h⟩
  | cons row rows ih =>
    obtain ⟨execution, covered⟩ := row
    obtain ⟨hnotin, hnodup'⟩ := List.nodup_cons.mp hnodup
    obtain ⟨hhead, htail⟩ := List.forall_mem_cons.mp habsent
    set c₁ := c.enter (⟨tenant, execution⟩,
      { owner := c.nextId, covered := covered, repair := true }) with hc₁
    have hs' : c₁.Sound := hs.enter hhead
    have habsent' : ∀ row ∈ rows, c₁.entries[(⟨tenant, row.1⟩ : Key)]? = none := by
      intro row hrow
      have hne : (⟨tenant, row.1⟩ : Key) ≠ ⟨tenant, execution⟩ := by
        intro heq
        have hmem : row.1 ∈ rows.map Prod.fst := List.mem_map_of_mem hrow
        exact hnotin ((Key.mk.inj heq).2 ▸ hmem)
      cases hget : c₁.entries[(⟨tenant, row.1⟩ : Key)]? with
      | none => rfl
      | some live =>
        rcases get_insert.mp hget with ⟨heq, -⟩ | ⟨-, hold⟩
        · exact absurd heq hne
        · rw [htail row hrow] at hold
          exact absurd hold (by simp)
    obtain ⟨hsound, hnext, hrepairs, hleases, hload, hkeep, hrows, hpending⟩ :=
      ih hs' hnodup' habsent'
    have hmono : ∀ (k : Key) (live : Live), c.entries[k]? = some live →
        c₁.entries[k]? = some live := fun k live hk =>
      get_insert.mpr (Or.inr ⟨fun heq => by
        rw [heq] at hk
        exact absurd (hhead.symm.trans hk) (by simp), hk⟩)
    refine ⟨hsound, ?_, hrepairs, hleases, fun p κ => ?_,
      fun k live hk => hkeep k live (hmono k live hk), ?_, fun k live hk => ?_⟩
    · show _ = _
      rw [show (repairRows tenant c.nextId ((execution, covered) :: rows)).foldl Custody.enter c
        = (repairRows tenant c₁.nextId rows).foldl Custody.enter c₁ from rfl, hnext]
      show c.nextId + 1 + rows.length = c.nextId + (rows.length + 1)
      omega
    · show ((repairRows tenant c₁.nextId rows).foldl Custody.enter c₁).load p κ = _
      rw [hload, hs.load_enter hhead]
      unfold rowsShare
      rw [List.map_cons, List.sum_cons]
      dsimp only
      split <;> omega
    · refine List.forall_mem_cons.mpr ⟨?_, hrows⟩
      exact ⟨_, hkeep _ _ (get_insert.mpr (Or.inl ⟨rfl, rfl⟩)), rfl⟩
    · rcases hpending k live hk with hold | hnew
      · rcases get_insert.mp hold with ⟨-, rfl⟩ | ⟨-, hold'⟩
        · exact Or.inr rfl
        · exact Or.inl hold'
      · exact Or.inr hnew

theorem Sound.leave (hs : c.Sound) {k : Key} {live : Live} (hk : c.entries[k]? = some live)
    (hrepair : live.repair = true) (hfree : k ∉ c.repairs.flatMap Repair.keys) :
    (c.leave k).Sound where
  fresh := hs.fresh
  lease_lt := hs.lease_lt
  lease_nodup := hs.lease_nodup
  unbound := hs.unbound
  bound l hl x hx := by
    obtain ⟨v, hv, howner, hr, hd⟩ := hs.bound l hl x hx
    refine ⟨v, get_erase.mpr ⟨fun heq => ?_, hv⟩, howner, hr, hd⟩
    rw [heq, hk] at hv
    obtain rfl := Option.some.inj hv
    exact absurd hr (by rw [hrepair]; simp)
  entry k' v hk' := hs.entry k' v (get_erase.mp hk').2
  held k' v hk' := hs.held k' v (get_erase.mp hk').2
  loose k' v hk' := hs.loose k' v (get_erase.mp hk').2
  dropped k' v hk' := hs.dropped k' v (get_erase.mp hk').2
  inj a b x y ha hb := hs.inj a b x y (get_erase.mp ha).2 (get_erase.mp hb).2
  repair_nodup := hs.repair_nodup
  repair_entry r hr k' hk' := by
    obtain ⟨htenant, v, hv, hrep⟩ := hs.repair_entry r hr k' hk'
    exact ⟨htenant, v, get_erase.mpr ⟨fun heq => hfree
      (List.mem_flatMap.mpr ⟨r, hr, heq ▸ hk'⟩), hv⟩, hrep⟩

/-- The charge of the entry at a key. -/
def shareAt (c : Custody) (p : TenantId → Bool) (kind : Kind) (k : Key) : ℕ :=
  entryAt (c.entryShare p kind) c.entries k

theorem load_leave (k : Key) :
    (c.leave k).load p κ + c.shareAt p κ k = c.load p κ := by
  have h := entryTotal_erase (c.entryShare p κ) c.entries k
  show (c.leases.map (c.leaseShare p κ)).sum
    + entryTotal (c.entryShare p κ) (c.entries.erase k) + _ = _
  unfold load shareAt
  omega

/-- **Taking the rows of a repair out** takes their charge out. -/
theorem Sound.leaveAll (hs : c.Sound) {keys : List Key} (hnodup : keys.Nodup)
    (hkeys : ∀ k ∈ keys, (∃ live : Live, c.entries[k]? = some live ∧ live.repair = true)
      ∧ k ∉ c.repairs.flatMap Repair.keys) :
    let c' := { c with entries := keys.foldl Std.TreeMap.erase c.entries }
    c'.Sound ∧ (∀ p κ, c'.load p κ + (keys.map (c.shareAt p κ)).sum = c.load p κ)
      ∧ (∀ (k : Key) (live : Live), c'.entries[k]? = some live → c.entries[k]? = some live) := by
  induction keys generalizing c with
  | nil => exact ⟨hs, fun _ _ => rfl, fun _ _ h => h⟩
  | cons k keys ih =>
    obtain ⟨hnotin, hnodup'⟩ := List.nodup_cons.mp hnodup
    obtain ⟨⟨⟨live, hk, hrepair⟩, hfree⟩, htail⟩ := List.forall_mem_cons.mp hkeys
    have hs' := hs.leave hk hrepair hfree
    have hne : ∀ k' ∈ keys, k' ≠ k := fun k' hk' heq => hnotin (heq ▸ hk')
    have htail' : ∀ k' ∈ keys,
        (∃ live : Live, (c.leave k).entries[k']? = some live ∧ live.repair = true)
          ∧ k' ∉ (c.leave k).repairs.flatMap Repair.keys := by
      intro k' hk'
      obtain ⟨⟨v, hv, hrep⟩, hfree'⟩ := htail k' hk'
      exact ⟨⟨v, get_erase.mpr ⟨hne k' hk', hv⟩, hrep⟩, hfree'⟩
    obtain ⟨hsound, hload, hsub⟩ := ih hs' hnodup' htail'
    refine ⟨hsound, fun p κ => ?_, fun k' v hk' => (get_erase.mp (hsub k' v hk')).2⟩
    have hsame : keys.map ((c.leave k).shareAt p κ) = keys.map (c.shareAt p κ) :=
      List.map_congr_left (fun k' hk' => by
        obtain ⟨⟨v, hv, -⟩, -⟩ := htail k' hk'
        unfold shareAt
        rw [entryAt_of_get hv, entryAt_of_get (m := (c.leave k).entries)
          (get_erase.mpr ⟨hne k' hk', hv⟩)]
        rfl)
    have hone := load_leave (c := c) (p := p) (κ := κ) k
    have hrest := hload p κ
    rw [hsame] at hrest
    exact (Nat.add_left_comm _ _ _).trans ((Nat.add_comm _ _).trans (hrest ▸ hone))

end Rows

end Custody

end BitRouter.Admission
