import BitRouter.Routing.Aging

/-!
# Steps

What an admission, a send, a completion and a release do, lane by lane and target by
target. A request that is refused only lets time pass; one that is admitted does so
to a state that is ready for it (`Ready`), and is then booked there.
-/

namespace BitRouter.Routing

variable {runtime : Runtime} {heap : Heap} {key : Key} {spare : ℕ} {limits : Limits} {now : ℕ}
variable {state state' : State} {held : ℕ} {lane : Lane} {guard : Admission}

/-! ## Admission -/

/-- What an admission reserves for its guard. -/
def guardBytes (runtime : Runtime) (key : Key) (spare : ℕ) (limits : Limits) : ℕ :=
  runtime.layout.admissionSize + (key.bytes + spare)
    + (limits.providerKey key).elim 0 ProviderKey.bytes

/-- **A state that is ready for an admission**: brought up to the present, with the
circuit closed and room under the limits. -/
structure Ready (runtime : Runtime) (key : Key) (limits : Limits) (now held : ℕ)
    (state ready : State) : Prop where
  aging : Aging now state ready
  sound : Sound runtime.layout held ready
  own : ∀ lane, (limits.of key lane).isSome →
    ready.rate lane = (state.rate lane).expire (tickOf now)
  available : ∀ lane limit, limits.of key lane = some (some limit) →
    (ready.rate lane).available limit = true
  closed : ∀ entry, state.targets.get key = some entry →
    entry.probe = none ∧ ∀ until', entry.openUntil = some until' → until' ≤ now
  next : ready.next < u64Max

/-- What comes of a request. -/
inductive AdmitSpec (runtime : Runtime) (key : Key) (spare : ℕ) (limits : Limits) (now held : ℕ)
    (state : State) : State × Except Refusal Admission → Prop
  | refused (refusal : Refusal) (state' : State) (haging : Aging now state state')
      (hsound : Sound runtime.layout held state') :
      AdmitSpec runtime key spare limits now held state (state', .error refusal)
  | admitted (ready : State) (hready : Ready runtime key limits now held state ready) :
      AdmitSpec runtime key spare limits now held state
        ((ready.book runtime.layout key (limits.providerKey key)
            (guardBytes runtime key spare limits) now).1,
          .ok (ready.book runtime.layout key (limits.providerKey key)
            (guardBytes runtime key spare limits) now).2)

theorem rate_expireOwn (hlane : (limits.of key lane).isSome) :
    (state.expireOwn key (limits.providerKey key) now).rate lane
      = (state.rate lane).expire (tickOf now) := by
  cases lane with
  | target key' =>
    unfold Limits.of at hlane
    dsimp only at hlane
    split at hlane
    · next heq =>
      show (Table.get _ key').elim _ _ = Rate.expire _ ((state.targets.get key').elim _ _)
      rw [get_expireOwn, if_pos heq]
      cases state.targets.get key' with
      | none => rfl
      | some entry => rfl
    · cases hlane
  | provider key' =>
    unfold Limits.of at hlane
    dsimp only at hlane
    split at hlane
    · next heq =>
      show (Table.get _ key').getD _ = Rate.expire _ ((state.providers.get key').getD _)
      rw [getProvider_expireOwn, if_pos heq]
      cases state.providers.get key' with
      | none => rfl
      | some rate => rfl
    · cases hlane

theorem available_empty {limit : UInt32} (h : limit ≠ 0) : Rate.available {} limit = true := by
  refine Rate.available_iff.mpr ?_
  show 0 < limit.toNat
  exact Nat.pos_of_ne_zero fun hzero => h (UInt32.toNat_inj.mp hzero)

theorem targetRefusal_eq_none (h : state.targetRefusal key limits now = none) :
    (∀ entry, state.targets.get key = some entry →
      entry.probe = none ∧ ∀ until', entry.openUntil = some until' → until' ≤ now)
    ∧ ∀ limit, limits.model = some limit → (state.rate (.target key)).available limit = true := by
  unfold State.targetRefusal at h
  cases hentry : state.targets.get key with
  | none =>
    rw [hentry] at h
    refine ⟨fun entry hsome => absurd hsome (by simp), fun limit hlimit => ?_⟩
    show ((state.targets.get key).elim {} Entry.rate).available limit = true
    rw [hentry]
    refine available_empty fun hzero => ?_
    rw [hlimit, hzero, if_pos rfl] at h
    cases h
  | some entry =>
    rw [hentry] at h
    dsimp only at h
    split at h
    · cases h
    next hclosed =>
    rw [not_or, Option.not_isSome_iff_eq_none] at hclosed
    split at h
    · cases h
    next hroom =>
    refine ⟨fun entry' hsome => ?_, fun limit hlimit => ?_⟩
    · obtain rfl := Option.some.inj hsome
      refine ⟨hclosed.1, fun until' huntil => ?_⟩
      have hpast := hclosed.2
      rw [huntil, Option.any_some, decide_eq_true_eq] at hpast
      exact not_lt.mp hpast
    · show ((state.targets.get key).elim {} Entry.rate).available limit = true
      rw [hentry]
      rw [hlimit, Option.any_some, Bool.not_eq_true', Bool.not_eq_false] at hroom
      exact hroom

theorem providerRefusal_eq_none (h : state.providerRefusal key limits = none) {own : ProviderKey}
    (hown : limits.providerKey key = some own) :
    ∀ limit, limits.provider.map Prod.snd = some limit →
      (state.rate (.provider own)).available limit = true := by
  intro limit hlimit
  obtain ⟨⟨pattern, limit'⟩, hprovider, rfl⟩ := Option.map_eq_some_iff.mp hlimit
  unfold State.providerRefusal at h
  rw [hprovider, hown] at h
  dsimp only at h
  split at h
  · cases h
  next hroom =>
  rw [not_or, Option.bind_some] at hroom
  show ((state.providers.get own).getD {}).available limit' = true
  cases hrate : state.providers.get own with
  | none => exact available_empty hroom.2
  | some rate =>
    have havailable := hroom.1
    rw [hrate, Option.any_some, Bool.not_eq_true', Bool.not_eq_false] at havailable
    exact havailable

theorem available_of_refusal
    (h : (state.targetRefusal key limits now).or (state.providerRefusal key limits) = none)
    {limit : UInt32} (hlane : limits.of key lane = some (some limit)) :
    (state.rate lane).available limit = true := by
  obtain ⟨htarget, hprovider⟩ := Option.or_eq_none_iff.mp h
  unfold Limits.of at hlane
  cases lane with
  | target key' =>
    dsimp only at hlane
    split at hlane
    · next heq =>
      rw [← heq]
      exact (targetRefusal_eq_none htarget).2 limit (Option.some.inj hlane)
    · cases hlane
  | provider key' =>
    dsimp only at hlane
    split at hlane
    · next heq => exact providerRefusal_eq_none hprovider heq limit (Option.some.inj hlane)
    · cases hlane

theorem closed_of_expireOwn
    (h : (state.expireOwn key (limits.providerKey key) now).targetRefusal key limits now = none)
    (entry : Entry) (hentry : state.targets.get key = some entry) :
    entry.probe = none ∧ ∀ until', entry.openUntil = some until' → until' ≤ now := by
  refine (targetRefusal_eq_none h).1 (entry.expire now) ?_
  rw [get_expireOwn, if_pos rfl, hentry]
  rfl

/-- **What an admission does.** -/
theorem admitAt_spec (h : Sound runtime.layout held state) :
    AdmitSpec runtime key spare limits now held state
      (admitAt runtime heap key spare limits now state) := by
  unfold admitAt
  dsimp only
  split
  · exact .refused _ _ (.refl now state) h
  split
  · exact .refused _ _ (.refl now state) h
  have hsound := h.expireOwn key (limits.providerKey key) now
  have haging := aging_expireOwn key (limits.providerKey key) now state
  cases hrefusal : ((state.expireOwn key (limits.providerKey key) now).targetRefusal key limits
      now).or ((state.expireOwn key (limits.providerKey key) now).providerRefusal key limits) with
  | some refusal => exact .refused _ _ haging hsound
  | none =>
    dsimp only
    generalize hpressed : (if State.fits runtime key spare _ _ _ then _ else _) = pressed
    -- whether or not something is reclaimed, only time passes
    have hboth : Aging now (state.expireOwn key (limits.providerKey key) now) pressed
        ∧ Sound runtime.layout held pressed := by
      rw [← hpressed]
      split
      · exact ⟨.refl now _, hsound⟩
      · exact ⟨aging_reclaim hsound heap now, hsound.reclaim heap now⟩
    split
    · exact .refused _ _ (haging.trans hboth.1) hboth.2
    split
    · exact .refused _ _ (haging.trans hboth.1) hboth.2
    next hcountable =>
    split
    · exact .refused _ _ (haging.trans hboth.1) hboth.2
    have hroom := aging_makeRoom runtime heap key (limits.providerKey key) now pressed
    have hroomy := hboth.2.makeRoom runtime heap key (limits.providerKey key)
    split
    · exact .refused _ _ ((haging.trans hboth.1).trans hroom) hroomy
    have hafter := hboth.1.trans hroom
    have hown : ∀ lane, (limits.of key lane).isSome →
        (pressed.makeRoom runtime heap key (limits.providerKey key)).1.rate lane
          = (state.expireOwn key (limits.providerKey key) now).rate lane := by
      intro lane hlane
      refine hafter.rate_of_expired ?_
      rw [rate_expireOwn hlane, Rate.expire_expire]
    refine .admitted _ ⟨haging.trans hafter, hroomy, fun lane hlane => ?_,
      fun lane limit hlane => ?_, closed_of_expireOwn (Option.or_eq_none_iff.mp hrefusal).1, ?_⟩
    · rw [hown lane hlane, rate_expireOwn hlane]
    · rw [hown lane (by rw [hlane]; rfl)]
      exact available_of_refusal hrefusal hlane
    · rw [hroom.next]
      simp only [State.countable, Bool.not_eq_true', Bool.not_eq_false, Bool.and_eq_true,
        decide_eq_true_eq] at hcountable
      exact hcountable.1.1.1

/-! ## Booking -/

variable {provider : Option ProviderKey} {bytes : ℕ}

theorem get_book (layout : Layout) (key key' : Key) (provider : Option ProviderKey)
    (bytes now : ℕ) (state : State) :
    (state.book layout key provider bytes now).1.targets.get key' =
      if key = key' then
        some (((state.targets.get key).getD (Entry.new now)).admitOne (state.next + 1) now)
      else state.targets.get key' := by
  show (state.targets.set key _).get key' = _
  rw [Table.get_set]

theorem getProvider_book (layout : Layout) (key : Key) (provider : Option ProviderKey)
    (key' : ProviderKey) (bytes now : ℕ) (state : State) :
    (state.book layout key provider bytes now).1.providers.get key' =
      if provider = some key' then some ((state.providers.get key').getD {}).admitOne
      else state.providers.get key' := by
  show (provider.elim state.providers _).get key' = _
  cases provider with
  | none => rfl
  | some own =>
    rw [Option.elim_some, Table.get_set]
    by_cases heq : own = key'
    · rw [if_pos heq, if_pos (congrArg some heq), heq]
    · rw [if_neg heq, if_neg fun h => heq (Option.some.inj h)]

/-- **A booking counts one more owner** of each lane of the guard. -/
theorem rate_book (layout : Layout) (key : Key) (provider : Option ProviderKey) (bytes now : ℕ)
    (state : State) (lane : Lane) :
    (state.book layout key provider bytes now).1.rate lane =
      if (state.book layout key provider bytes now).2.uses lane then (state.rate lane).admitOne
      else state.rate lane := by
  cases lane with
  | target key' =>
    show (Table.get _ key').elim _ _ = if decide (key = key') = true then
      Rate.admitOne ((state.targets.get key').elim _ _) else (state.targets.get key').elim _ _
    rw [get_book]
    by_cases heq : key = key'
    · rw [if_pos heq, if_pos (decide_eq_true heq), ← heq]
      cases state.targets.get key with
      | none => rfl
      | some entry => rfl
    · rw [if_neg heq, if_neg (by simpa using heq)]
  | provider key' =>
    show (Table.get _ key').getD _ = if decide (provider = some key') = true then
      Rate.admitOne ((state.providers.get key').getD _) else (state.providers.get key').getD _
    rw [getProvider_book]
    by_cases heq : provider = some key'
    · rw [if_pos heq, if_pos (decide_eq_true heq)]
      rfl
    · rw [if_neg heq, if_neg (by simpa using heq)]

variable {layout : Layout}

theorem sound_book (h : Sound layout held state) (key : Key) (provider : Option ProviderKey)
    (bytes now : ℕ) :
    Sound layout (held + bytes) (state.book layout key provider bytes now).1 := by
  refine ⟨h.targets.set, ?_, ?_⟩
  · show (provider.elim state.providers _).Unique
    cases provider with
    | none => exact h.providers
    | some own => exact h.providers.set
  · show state.bytes + (state.targets.get key).elim 1 _ * layout.targetCharge key
      + provider.elim 0 _ * provider.elim 0 layout.providerCharge + bytes
      = held + bytes + (state.targets.set key _).charges _
        + (provider.elim state.providers _).charges _
    rw [Table.charges_set, h.bytes]
    cases provider with
    | none =>
      show _ + _ + 0 * 0 + bytes = held + bytes + _ + state.providers.charges _
      omega
    | some own =>
      rw [Option.elim_some, Option.elim_some, Option.elim_some, Table.charges_set]
      omega

/-! ## Sending -/

structure SentFrom (guard : Admission) (now : ℕ) (state state' : State) : Prop where
  unsent : guard.sent = none
  unfinished : guard.finished = false
  rate : ∀ lane, state'.rate lane =
    if guard.uses lane then (state.rate lane).sent (tickOf now) else state.rate lane
  target : ∀ key, state'.targets.get key = if guard.key = key then
      (state.targets.get key).map fun entry => { entry with rate := entry.rate.sent (tickOf now) }
    else state.targets.get key
  provider : ∀ key, (state'.providers.get key).isSome = (state.providers.get key).isSome
  next : state'.next = state.next
  active : state'.active = state.active

theorem isSome_set_of_some {κ α : Type} [DecidableEq κ] {table : Table κ α} {key : κ}
    {value : α} (h : table.get key = some value) (value' : α) (key' : κ) :
    ((table.set key value').get key').isSome = (table.get key').isSome := by
  rw [Table.get_set]
  split
  · next heq => rw [← heq, h]; rfl
  · rfl

theorem charges_set_of_some {κ α : Type} [DecidableEq κ] {table : Table κ α} {key : κ}
    {value value' : α} (h : table.get key = some value) (charge : κ → ℕ) :
    (table.set key value').charges charge = table.charges charge := by
  rw [Table.charges_set, h, Option.elim_some, Nat.zero_mul, Nat.add_zero]

/-- **A guard that is neither sent nor finished is sent**, if its entries are there. -/
theorem sentAt_spec (guard : Admission) (now : ℕ) (h : Sound layout held state)
    (htarget : guard.finished = false → (state.targets.get guard.key).isSome)
    (hprovider : guard.finished = false → ∀ provider, guard.provider = some provider →
      (state.providers.get provider).isSome) :
    (∃ refusal, sentAt guard now state = (state, .error refusal))
    ∨ ∃ state', sentAt guard now state = (state', .ok { guard with sent := some now })
      ∧ SentFrom guard now state state' ∧ Sound layout held state' := by
  unfold sentAt
  split
  · exact .inl ⟨_, rfl⟩
  next hlive =>
  rw [not_or, Option.not_isSome_iff_eq_none, Bool.not_eq_true] at hlive
  obtain ⟨entry, hentry⟩ := Option.isSome_iff_exists.mp (htarget hlive.2)
  right
  rw [hentry]
  have hget : ∀ key, (state.targets.set guard.key
      { entry with rate := entry.rate.sent (tickOf now) }).get key = if guard.key = key then
        (state.targets.get key).map fun entry => { entry with rate := entry.rate.sent (tickOf now) }
      else state.targets.get key := by
    intro key
    rw [Table.get_set]
    split
    · next heq => rw [← heq, hentry]; rfl
    · rfl
  have hrate : ∀ key, ((state.targets.set guard.key
      { entry with rate := entry.rate.sent (tickOf now) }).get key).elim {} Entry.rate =
        if guard.key = key then
          Rate.sent (tickOf now) ((state.targets.get key).elim {} Entry.rate)
        else (state.targets.get key).elim {} Entry.rate := by
    intro key
    rw [hget]
    split
    · next heq => rw [← heq, hentry]; rfl
    · rfl
  cases hguard : guard.provider with
  | none =>
    refine ⟨_, rfl, ⟨hlive.1, hlive.2, fun lane => ?_, hget, fun _ => rfl, rfl, rfl⟩,
      ⟨h.targets.set, h.providers, ?_⟩⟩
    · cases lane with
      | target key =>
        simp only [Admission.uses, decide_eq_true_eq]
        exact hrate key
      | provider key =>
        simp only [Admission.uses, hguard, decide_eq_true_eq, reduceCtorEq, if_false]
        rfl
    · show state.bytes = _ + (state.targets.set _ _).charges _ + _
      rw [charges_set_of_some hentry]
      exact h.bytes
  | some own =>
    obtain ⟨rate, hown⟩ := Option.isSome_iff_exists.mp (hprovider hlive.2 own hguard)
    dsimp only
    rw [hown]
    refine ⟨_, rfl, ⟨hlive.1, hlive.2, fun lane => ?_, hget, isSome_set_of_some hown _, rfl, rfl⟩,
      ⟨h.targets.set, h.providers.set, ?_⟩⟩
    · cases lane with
      | target key =>
        simp only [Admission.uses, decide_eq_true_eq]
        exact hrate key
      | provider key =>
        simp only [Admission.uses, hguard, decide_eq_true_eq]
        show ((state.providers.set own _).get key).getD {} = _
        rw [Table.get_set]
        by_cases heq : own = key
        · rw [if_pos heq, if_pos (congrArg some heq), ← heq]
          show Rate.sent _ rate = Rate.sent _ ((state.providers.get own).getD {})
          rw [hown]
          rfl
        · rw [if_neg heq, if_neg fun h => heq (Option.some.inj h)]
          rfl
    · show state.bytes = _ + (state.targets.set _ _).charges _ + (state.providers.set _ _).charges _
      rw [charges_set_of_some hentry, charges_set_of_some hown]
      exact h.bytes

/-! ## Finishing -/

theorem rate_reopen (lastInstant : ℕ) (entry : Entry) :
    (entry.reopen lastInstant now).rate = entry.rate := by
  unfold Entry.reopen
  split <;> rfl

theorem rate_sample (started : ℕ) (output : Option UInt64) (entry : Entry) :
    (entry.sample now started output).rate = entry.rate := by
  unfold Entry.sample
  dsimp only
  split <;> rfl

theorem rate_complete (lastInstant started : ℕ) (wasProbe : Bool) (outcome : Outcome)
    (entry : Entry) :
    (entry.complete lastInstant now started wasProbe outcome).rate = entry.rate := by
  cases outcome with
  | success output => exact rate_sample started output _
  | unavailable =>
    unfold Entry.complete
    dsimp only
    split
    · exact rate_reopen lastInstant _
    · rfl
  | neutral | unknown =>
    unfold Entry.complete
    dsimp only
    split
    · exact rate_reopen lastInstant entry
    · rfl

theorem rate_finish (lastInstant : ℕ) (guard : Admission) (outcome : Outcome) (entry : Entry) :
    (entry.finish lastInstant guard outcome now).rate = entry.rate.finish guard.sent.isSome := by
  unfold Entry.finish
  cases guard.sent with
  | none => rfl
  | some started =>
    dsimp only
    split
    · rfl
    · exact rate_complete lastInstant started _ outcome _

structure FinishedFrom (lastInstant : ℕ) (guard : Admission) (outcome : Outcome) (now : ℕ)
    (state state' : State) : Prop where
  rate : ∀ lane, state'.rate lane =
    if guard.uses lane then (state.rate lane).finish guard.sent.isSome else state.rate lane
  target : ∀ key, state'.targets.get key = if guard.key = key then
      (state.targets.get key).map fun entry => entry.finish lastInstant guard outcome now
    else state.targets.get key
  provider : ∀ key, (state'.providers.get key).isSome = (state.providers.get key).isSome
  next : state'.next = state.next
  active : state'.active = state.active - 1

theorem finish_empty (wasSent : Bool) : Rate.finish wasSent {} = {} := by cases wasSent <;> rfl

theorem finishAt_spec (runtime : Runtime) (outcome : Outcome) (now : ℕ)
    (h : Sound layout held state) (hlive : guard.finished = false) :
    ∃ state', finishAt runtime guard outcome now state = (state', { guard with finished := true })
      ∧ FinishedFrom runtime.lastInstant guard outcome now state state'
      ∧ Sound layout held state' := by
  unfold finishAt
  rw [if_neg (by rw [hlive]; exact Bool.false_ne_true)]
  have hget : ∀ key, ((state.targets.get guard.key).elim state.targets fun entry =>
      state.targets.set guard.key (entry.finish runtime.lastInstant guard outcome now)).get key =
        if guard.key = key then
          (state.targets.get key).map fun entry =>
            entry.finish runtime.lastInstant guard outcome now
        else state.targets.get key := by
    intro key
    cases hentry : state.targets.get guard.key with
    | none =>
      split
      · next heq => rw [← heq, hentry]; exact hentry
      · rfl
    | some entry =>
      rw [Option.elim_some, Table.get_set]
      split
      · next heq => rw [← heq, hentry]; rfl
      · rfl
  have htargets : ((state.targets.get guard.key).elim state.targets fun entry =>
      state.targets.set guard.key (entry.finish runtime.lastInstant guard outcome now)).Unique
      ∧ ((state.targets.get guard.key).elim state.targets fun entry => state.targets.set guard.key
          (entry.finish runtime.lastInstant guard outcome now)).charges layout.targetCharge
        = state.targets.charges layout.targetCharge := by
    cases hentry : state.targets.get guard.key with
    | none => exact ⟨h.targets, rfl⟩
    | some entry => exact ⟨h.targets.set, charges_set_of_some hentry _⟩
  refine ⟨_, rfl, ⟨fun lane => ?_, hget, fun key => ?_, rfl, rfl⟩, ?_⟩
  · cases lane with
    | target key =>
      simp only [Admission.uses, decide_eq_true_eq]
      show (Table.get _ key).elim _ _ = _
      rw [hget]
      show _ = if guard.key = key then
        Rate.finish _ ((state.targets.get key).elim {} Entry.rate) else _
      split
      · cases state.targets.get key with
        | none => exact (finish_empty _).symm
        | some entry => exact rate_finish _ _ _ _
      · rfl
    | provider key =>
      simp only [Admission.uses, decide_eq_true_eq]
      show (Table.get _ key).getD _ = if guard.provider = some key then
        Rate.finish _ ((state.providers.get key).getD {}) else (state.providers.get key).getD {}
      cases guard.provider with
      | none => rfl
      | some own =>
        rw [Option.elim_some]
        cases hown : state.providers.get own with
        | none =>
          split
          · next heq =>
            obtain rfl := Option.some.inj heq
            rw [Option.elim_none, hown]
            exact (finish_empty _).symm
          · rfl
        | some rate =>
          rw [Option.elim_some, Table.get_set]
          by_cases heq : own = key
          · rw [if_pos heq, if_pos (congrArg some heq), ← heq, hown]
            rfl
          · rw [if_neg heq, if_neg fun h => heq (Option.some.inj h)]
  · show ((guard.provider.elim state.providers _).get key).isSome = _
    cases guard.provider with
    | none => rfl
    | some own =>
      rw [Option.elim_some]
      cases hown : state.providers.get own with
      | none => rfl
      | some rate => exact isSome_set_of_some hown _ key
  · have hproviders : (guard.provider.elim state.providers fun provider =>
        (state.providers.get provider).elim state.providers fun rate =>
          state.providers.set provider (rate.finish guard.sent.isSome)).Unique
        ∧ (guard.provider.elim state.providers fun provider =>
          (state.providers.get provider).elim state.providers fun rate =>
            state.providers.set provider (rate.finish guard.sent.isSome)).charges
              layout.providerCharge = state.providers.charges layout.providerCharge := by
      cases guard.provider with
      | none => exact ⟨h.providers, rfl⟩
      | some own =>
        rw [Option.elim_some]
        cases hown : state.providers.get own with
        | none => exact ⟨h.providers, rfl⟩
        | some rate => exact ⟨h.providers.set, charges_set_of_some hown _⟩
    refine ⟨htargets.1, hproviders.1, ?_⟩
    show state.bytes = held + Table.charges _ _ + Table.charges _ _
    rw [htargets.2, hproviders.2]
    exact h.bytes

end BitRouter.Routing
