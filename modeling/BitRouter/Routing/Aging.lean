import BitRouter.Routing.Tables
import BitRouter.Routing.World
import Mathlib.Data.List.DropRight

/-!
# What time does

Bringing the state up to the present expires windows and samples and may reclaim what
nobody uses. Of each entry that is one of three things (`Aged`), and of a rate it is
at most its expiry: what is reclaimed had nothing left in its window. The bytes are
what the entries and the guards are charged throughout (`Sound`), so none of the
subtractions goes below zero.
-/

namespace BitRouter.Routing

variable {now : ℕ} {state state' : State} {lane : Lane} {key : Key}

/-! ## Rates -/

namespace Rate

theorem expire_expire (tick : ℕ) (rate : Rate) :
    (rate.expire tick).expire tick = rate.expire tick := by
  rw [expire, expire, Buckets.expire, Buckets.expire, List.dropWhile_idempotent]

theorem eq_of_idle {rate : Rate} (h : rate.idle = true) : rate = {} := by
  obtain ⟨pending, active, seconds⟩ := rate
  simp only [idle, Bool.and_eq_true, decide_eq_true_eq, List.isEmpty_iff] at h
  obtain ⟨⟨rfl, rfl⟩, rfl⟩ := h
  rfl

theorem foldl_saturating (bound : ℕ) (seconds : List (ℕ × ℕ)) (start : ℕ) :
    seconds.foldl (fun total b => min (total + b.2) bound) (min start bound)
      = min (start + Buckets.total seconds) bound := by
  induction seconds generalizing start with
  | nil => rfl
  | cons b seconds ih =>
    have hstep : min (min start bound + b.2) bound = min (start + b.2) bound := by omega
    rw [List.foldl_cons, hstep, ih, Buckets.total_cons, Nat.add_assoc]

/-- **There is room under a limit**: what is reserved and what is in the window is
less. -/
theorem available_iff {rate : Rate} {limit : UInt32} :
    rate.available limit = true ↔ rate.pending + Buckets.total rate.seconds < limit.toNat := by
  have hlimit : limit.toNat < 4294967296 := limit.toNat_lt
  rw [available, foldl_saturating, decide_eq_true_eq, u64Max]
  omega

end Rate

/-! ## Entries -/

/-- What the passing of time does to an entry. -/
inductive Aged {α : Type} (expire : α → α) (gone : α → Bool) : Option α → Option α → Prop
  | same (entry : Option α) : Aged expire gone entry entry
  | expired (entry : α) : Aged expire gone (some entry) (some (expire entry))
  | evicted (entry : α) (h : gone (expire entry) = true) : Aged expire gone (some entry) none

/-- What is not gone is kept. -/
theorem Aged.kept {α : Type} {expire : α → α} {gone : α → Bool} {entry : α} {after : Option α}
    (h : Aged expire gone (some entry) after) (huse : gone (expire entry) = false) :
    after.isSome := by
  cases h with
  | same => rfl
  | expired => rfl
  | evicted _ hgone =>
    rw [huse] at hgone
    cases hgone

theorem Aged.trans {α : Type} {expire : α → α} {gone : α → Bool} {first second third : Option α}
    (hidem : ∀ entry, expire (expire entry) = expire entry) (h : Aged expire gone first second)
    (h' : Aged expire gone second third) : Aged expire gone first third := by
  cases h with
  | same => exact h'
  | evicted entry hgone => cases h' with
    | same => exact .evicted entry hgone
  | expired entry => cases h' with
    | same => exact .expired entry
    | expired => exact (hidem entry).symm ▸ .expired entry
    | evicted _ hgone => exact .evicted entry (hidem entry ▸ hgone)

theorem aged_bind {α : Type} {expire : α → α} {gone : α → Bool} (entry : Option α) :
    Aged expire gone entry
      (entry.bind fun e => if gone (expire e) then none else some (expire e)) := by
  cases entry with
  | none => exact .same none
  | some e =>
    rw [Option.bind_some]
    split
    · next hgone => exact .evicted e hgone
    · exact .expired e

abbrev AgedTarget (now : ℕ) : Option Entry → Option Entry → Prop :=
  Aged (Entry.expire now) (Entry.evictable now)

abbrev AgedProvider (now : ℕ) : Option Rate → Option Rate → Prop :=
  Aged (Rate.expire (tickOf now)) Rate.idle

theorem Entry.expire_expire (now : ℕ) (entry : Entry) :
    (entry.expire now).expire now = entry.expire now := by
  simp only [Entry.expire, Rate.expire_expire, List.filter_filter, Bool.and_self]

/-! ## States -/

/-- **Time passes.** -/
structure Aging (now : ℕ) (state state' : State) : Prop where
  target : ∀ key, AgedTarget now (state.targets.get key) (state'.targets.get key)
  provider : ∀ key, AgedProvider now (state.providers.get key) (state'.providers.get key)
  next : state'.next = state.next
  active : state'.active = state.active

theorem Aging.refl (now : ℕ) (state : State) : Aging now state state :=
  ⟨fun _ => .same _, fun _ => .same _, rfl, rfl⟩

theorem Aging.trans {state'' : State} (h : Aging now state state') (h' : Aging now state' state'') :
    Aging now state state'' where
  target key := (h.target key).trans (Entry.expire_expire now) (h'.target key)
  provider key := (h.provider key).trans (Rate.expire_expire (tickOf now)) (h'.provider key)
  next := h'.next.trans h.next
  active := h'.active.trans h.active

theorem rate_of_agedTarget {before after : Option Entry} (h : AgedTarget now before after) :
    after.elim {} Entry.rate = before.elim {} Entry.rate
      ∨ after.elim {} Entry.rate = (before.elim {} Entry.rate).expire (tickOf now) := by
  cases h with
  | same => exact .inl rfl
  | expired entry => exact .inr rfl
  | evicted entry hgone =>
    simp only [Entry.evictable, Bool.and_eq_true] at hgone
    exact .inr (Rate.eq_of_idle hgone.1.1.1).symm

theorem rate_of_agedProvider {before after : Option Rate} (h : AgedProvider now before after) :
    after.getD {} = before.getD {} ∨ after.getD {} = (before.getD {}).expire (tickOf now) := by
  cases h with
  | same => exact .inl rfl
  | expired rate => exact .inr rfl
  | evicted rate hgone => exact .inr (Rate.eq_of_idle hgone).symm

/-- **A rate at most expires.** -/
theorem Aging.rate (h : Aging now state state') (lane : Lane) : state'.rate lane = state.rate lane
    ∨ state'.rate lane = (state.rate lane).expire (tickOf now) := by
  cases lane with
  | target key => exact rate_of_agedTarget (h.target key)
  | provider key => exact rate_of_agedProvider (h.provider key)

theorem Aging.rate_of_expired (h : Aging now state state')
    (hexpired : (state.rate lane).expire (tickOf now) = state.rate lane) :
    state'.rate lane = state.rate lane := by
  rcases h.rate lane with hsame | hexpire
  · exact hsame
  · rw [hexpire, hexpired]

/-- **The books**: every key once, and the bytes are what entries and guards are
charged. -/
structure Sound (layout : Layout) (held : ℕ) (state : State) : Prop where
  targets : state.targets.Unique
  providers : state.providers.Unique
  bytes : state.bytes = held + state.targets.charges layout.targetCharge
    + state.providers.charges layout.providerCharge

/-! ## The entries of a request -/

variable {layout : Layout} {held : ℕ} {provider : Option ProviderKey}

theorem get_expireOwn (key key' : Key) : (state.expireOwn key provider now).targets.get key' =
    if key = key' then (state.targets.get key').map (Entry.expire now)
    else state.targets.get key' := by
  unfold State.expireOwn
  cases hentry : state.targets.get key with
  | none =>
    split
    · next heq => rw [← heq, hentry]; exact hentry
    · rfl
  | some entry =>
    show (state.targets.set key (entry.expire now)).get key' = _
    rw [Table.get_set]
    split
    · next heq => rw [← heq, hentry]; rfl
    · rfl

theorem getProvider_expireOwn (key : Key) (key' : ProviderKey) :
    (state.expireOwn key provider now).providers.get key' =
      if provider = some key' then (state.providers.get key').map (Rate.expire (tickOf now))
      else state.providers.get key' := by
  unfold State.expireOwn
  cases provider with
  | none => rfl
  | some own =>
    rw [Option.elim_some]
    cases hrate : state.providers.get own with
    | none =>
      split
      · next heq =>
        obtain rfl := Option.some.inj heq
        rw [hrate]
        exact hrate
      · rfl
    | some rate =>
      show (state.providers.set own _).get key' = _
      rw [Table.get_set]
      by_cases heq : own = key'
      · rw [if_pos heq, if_pos (congrArg some heq), ← heq, hrate]
        rfl
      · rw [if_neg heq, if_neg fun h => heq (Option.some.inj h)]

theorem aging_expireOwn (key : Key) (provider : Option ProviderKey) (now : ℕ) (state : State) :
    Aging now state (state.expireOwn key provider now) where
  target key' := by
    rw [get_expireOwn]
    split
    · cases state.targets.get key' with
      | none => exact .same none
      | some entry => exact .expired entry
    · exact .same _
  provider key' := by
    rw [getProvider_expireOwn]
    split
    · cases state.providers.get key' with
      | none => exact .same none
      | some rate => exact .expired rate
    · exact .same _
  next := rfl
  active := rfl

theorem Sound.expireOwn (h : Sound layout held state) (key : Key) (provider : Option ProviderKey)
    (now : ℕ) : Sound layout held (state.expireOwn key provider now) := by
  have htargets : ∀ table : Table Key Entry, table.Unique → ∀ found : Option Entry,
      table.get key = found →
      (found.elim table fun entry => table.set key (entry.expire now)).Unique
      ∧ (found.elim table fun entry => table.set key (entry.expire now)).charges layout.targetCharge
        = table.charges layout.targetCharge := by
    intro table hunique found hfound
    cases found with
    | none => exact ⟨hunique, rfl⟩
    | some entry =>
      refine ⟨hunique.set, ?_⟩
      rw [Option.elim_some, Table.charges_set, hfound, Option.elim_some, Nat.zero_mul, Nat.add_zero]
  have hproviders : (state.expireOwn key provider now).providers.Unique
      ∧ (state.expireOwn key provider now).providers.charges layout.providerCharge
        = state.providers.charges layout.providerCharge := by
    unfold State.expireOwn
    cases provider with
    | none => exact ⟨h.providers, rfl⟩
    | some own =>
      rw [Option.elim_some]
      cases hrate : state.providers.get own with
      | none => exact ⟨h.providers, rfl⟩
      | some rate =>
        refine ⟨h.providers.set, ?_⟩
        rw [Option.elim_some, Table.charges_set, hrate, Option.elim_some,
          Nat.zero_mul, Nat.add_zero]
  refine ⟨(htargets _ h.targets _ rfl).1, hproviders.1, ?_⟩
  rw [hproviders.2]
  show state.bytes = held + (Option.elim _ _ _ : Table Key Entry).charges _ + _
  rw [(htargets _ h.targets _ rfl).2]
  exact h.bytes

/-! ## Reclaiming -/

theorem discharge_eq (bytes : ℕ) (charges : List ℕ) :
    discharge bytes charges = bytes - charges.sum := by
  unfold discharge
  induction charges generalizing bytes with
  | nil => rfl
  | cons charge charges ih => rw [List.foldl_cons, ih, List.sum_cons, Nat.sub_sub]

variable {heap : Heap}

theorem aging_reclaim (h : Sound layout held state) (heap : Heap) (now : ℕ) :
    Aging now state (state.reclaim layout heap now) where
  target key := by
    show AgedTarget now _ ((state.targets.retain heap.keptTargets (keepTarget now)).get key)
    rw [Table.get_retain h.targets]
    exact aged_bind _
  provider key := by
    show AgedProvider now _ ((state.providers.retain heap.keptProviders (keepProvider now)).get key)
    rw [Table.get_retain h.providers]
    exact aged_bind _
  next := rfl
  active := rfl

/-- **What is reclaimed is charged no more**, and nothing else is. -/
theorem Sound.reclaim (h : Sound layout held state) (heap : Heap) (now : ℕ) :
    Sound layout held (state.reclaim layout heap now) := by
  refine ⟨h.targets.retain, h.providers.retain, ?_⟩
  have htargets := Table.charges_retain layout.targetCharge heap.keptTargets state.targets
    (keepTarget now)
  have hproviders := Table.charges_retain layout.providerCharge heap.keptProviders state.providers
    (keepProvider now)
  show discharge (discharge _ _) _ = held + (state.targets.retain _ _).charges _
    + (state.providers.retain _ _).charges _
  rw [discharge_eq, discharge_eq, h.bytes, ← htargets, ← hproviders]
  omega

/-! ## Growth -/

/-- Growth changes what tables are charged, and no entry. -/
theorem makeRoom_same (runtime : Runtime) (heap : Heap) (key : Key) (provider : Option ProviderKey)
    (state : State) :
    (state.makeRoom runtime heap key provider).1.targets.entries = state.targets.entries
      ∧ (state.makeRoom runtime heap key provider).1.providers.entries = state.providers.entries
      ∧ (state.makeRoom runtime heap key provider).1.bytes = state.bytes
      ∧ (state.makeRoom runtime heap key provider).1.next = state.next
      ∧ (state.makeRoom runtime heap key provider).1.active = state.active := by
  unfold State.makeRoom
  dsimp only
  cases htargets : state.targets.grow runtime.layout.targetSlot heap.targets state.targetBytes
      (state.missing key provider).1 with
  | none => exact ⟨rfl, rfl, rfl, rfl, rfl⟩
  | some grown =>
    cases hproviders : state.providers.grow runtime.layout.providerSlot heap.providers
        state.providerBytes (state.missing key provider).2 with
    | none => exact ⟨Table.entries_of_grow htargets, rfl, rfl, rfl, rfl⟩
    | some grown' =>
      exact ⟨Table.entries_of_grow htargets, Table.entries_of_grow hproviders, rfl, rfl, rfl⟩

theorem aging_makeRoom (runtime : Runtime) (heap : Heap) (key : Key)
    (provider : Option ProviderKey) (now : ℕ) (state : State) :
    Aging now state (state.makeRoom runtime heap key provider).1 := by
  obtain ⟨htargets, hproviders, -, hnext, hactive⟩ :=
    makeRoom_same runtime heap key provider state
  refine ⟨fun key' => ?_, fun key' => ?_, hnext, hactive⟩
  · rw [Table.get, Table.get, htargets]
    exact .same _
  · rw [Table.get, Table.get, hproviders]
    exact .same _

theorem Sound.makeRoom (h : Sound layout held state) (runtime : Runtime) (heap : Heap) (key : Key)
    (provider : Option ProviderKey) :
    Sound layout held (state.makeRoom runtime heap key provider).1 := by
  obtain ⟨htargets, hproviders, hbytes, -, -⟩ := makeRoom_same runtime heap key provider state
  refine ⟨?_, ?_, ?_⟩
  · rw [Table.Unique, htargets]
    exact h.targets
  · rw [Table.Unique, hproviders]
    exact h.providers
  · rw [hbytes, Table.charges, Table.charges, htargets, hproviders]
    exact h.bytes

end BitRouter.Routing
