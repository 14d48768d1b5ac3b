import BitRouter.Mcp.Shown

/-!
# What a merged list advertises

A merged list may be kept for no longer than the answer of each member, and shared
between callers only where each answer may be. A member that fails, or says nothing
usable, makes it private and stale.
-/

namespace BitRouter.Mcp

variable {T : Text} {inner : Inner} {holding : Holding} {members : List AggregateMember}
variable {m : AggregateMember} {method listKey : String} {params : Json}
variable {policy policy' : AggregateCachePolicy} {result : Fields}

/-- The time to live of an answer. -/
def ttlOf (result : Fields) : Option ℕ := (IndexMap.get result "ttlMs").bind Json.asU64

/-- An answer that may be kept this long. -/
def Fresh (result : Fields) (ttl : ℕ) : Prop :=
  strField result "resultType" = some "complete" ∧ ttlOf result = some ttl

/-- An answer that may be shared. -/
def Shared (result : Fields) : Prop :=
  strField result "resultType" = some "complete" ∧ strField result "cacheScope" = some "public"

/-- **A policy is within the answer of a member.** -/
def Within (inner : Inner) (method : String) (params : Json) (policy : AggregateCachePolicy)
    (m : AggregateMember) : Prop :=
  ∃ ttl, policy.ttlMs = some ttl
    ∧ (0 < ttl → ∃ result own, inner m method params = .ok result ∧ Fresh result own ∧ ttl ≤ own)
    ∧ (policy.shared = true → ∃ result, inner m method params = .ok result ∧ Shared result)

/-! ## Policies shrink -/

/-- One policy allows no more than another. -/
def Below (policy' policy : AggregateCachePolicy) : Prop :=
  (∀ ttl, policy.ttlMs = some ttl → ∃ ttl' ≤ ttl, policy'.ttlMs = some ttl')
    ∧ (policy'.shared = true → policy.shared = true)

theorem below_observeFailure (policy : AggregateCachePolicy) :
    Below policy.observeFailure policy :=
  ⟨fun _ _ => ⟨0, Nat.zero_le _, rfl⟩, fun h => by cases h⟩

theorem below_observe : Below (policy.observe result) policy := by
  unfold AggregateCachePolicy.observe
  split
  · next ttl scope _ _ =>
    split
    · refine ⟨fun own hown => ?_, fun h => ?_⟩
      · rw [hown]
        exact ⟨min own ttl, min_le_left _ _, rfl⟩
      · exact (Bool.and_eq_true _ _ ▸ h : _ ∧ _).1
    · exact below_observeFailure policy
  · exact below_observeFailure policy

theorem Below.trans {policy'' : AggregateCachePolicy} (h : Below policy'' policy')
    (h' : Below policy' policy) : Below policy'' policy := by
  refine ⟨fun ttl httl => ?_, fun hshared => h'.2 (h.2 hshared)⟩
  obtain ⟨ttl', hle', httl'⟩ := h'.1 ttl httl
  obtain ⟨ttl'', hle, httl''⟩ := h.1 ttl' httl'
  exact ⟨ttl'', hle.trans hle', httl''⟩

theorem Within.mono (h : Within inner method params policy m) (hbelow : Below policy' policy) :
    Within inner method params policy' m := by
  obtain ⟨ttl, httl, hfresh, hshared⟩ := h
  obtain ⟨ttl', hle, httl'⟩ := hbelow.1 ttl httl
  refine ⟨ttl', httl', fun hpos => ?_, fun hon => hshared (hbelow.2 hon)⟩
  obtain ⟨result, own, hok, hown, hle'⟩ := hfresh (hpos.trans_le hle)
  exact ⟨result, own, hok, hown, hle.trans hle'⟩

theorem within_observeFailure (policy : AggregateCachePolicy) :
    Within inner method params policy.observeFailure m :=
  ⟨0, rfl, fun h => absurd h (lt_irrefl 0), fun h => by cases h⟩

/-! ## Ageing -/

variable {elapsed : ℕ}

theorem strField_age {key : String} (h : "ttlMs" ≠ key) :
    strField (ageCacheableResult result elapsed) key = strField result key := by
  rw [strField, strField, get_ageCacheableResult h]

theorem toNat_ofNat_le (n : ℕ) : (UInt64.ofNat n).toNat ≤ n := by
  exact Nat.mod_le _ _

theorem ttlOf_age {ttl : ℕ} (h : ttlOf (ageCacheableResult result elapsed) = some ttl) :
    ∃ own, ttlOf result = some own ∧ ttl ≤ own := by
  unfold ageCacheableResult at h
  split at h
  · next hnone =>
    rw [ttlOf, hnone] at h
    cases h
  · next own hown =>
    refine ⟨own, hown, ?_⟩
    rw [ttlOf, IndexMap.get_insert_self] at h
    obtain rfl := Option.some.inj h
    have hle : (own * 1000000 - elapsed) / 1000000 ≤ own :=
      Nat.div_le_of_le_mul (by omega)
    exact (toNat_ofNat_le _).trans hle

theorem within_observe (hok : inner m method params = .ok result) :
    Within inner method params (policy.observe (ageCacheableResult result elapsed)) m := by
  unfold AggregateCachePolicy.observe
  split
  · next ttl scope httl hscope =>
    split
    · next hcomplete =>
      rw [strField_age (by decide)] at hscope
      rw [strField_age (by decide)] at hcomplete
      obtain ⟨own, hown, hle⟩ := ttlOf_age httl
      refine ⟨_, rfl, fun _ => ⟨result, own, hok, ⟨hcomplete.1, hown⟩, ?_⟩, fun hshared => ?_⟩
      · refine le_trans ?_ hle
        cases policy.ttlMs with
        | none => exact le_rfl
        | some old => exact min_le_right _ _
      · have hpublic : scope = "public" :=
          beq_iff_eq.mp (Bool.and_eq_true _ _ ▸ hshared : _ ∧ _).2
        exact ⟨result, hok, hcomplete.1, hpublic ▸ hscope⟩
    · exact within_observeFailure policy
  · exact within_observeFailure policy

/-! ## Merges -/

theorem policy_mergeList (shown : AggregateMember → Json → Json) (merge : Merge) :
    Within inner method params
        (mergeList holding listKey shown merge (m, inner m method params)).policy m ∧
      Below (mergeList holding listKey shown merge (m, inner m method params)).policy
        merge.policy := by
  unfold mergeList
  split
  · exact ⟨within_observeFailure merge.policy, below_observeFailure merge.policy⟩
  · next result hok =>
    split
    · exact ⟨within_observeFailure merge.policy, below_observeFailure merge.policy⟩
    · exact ⟨within_observe hok, below_observe⟩

theorem policy_mergeSkills (merge : Merge) :
    Within inner "skills/list" params
        (mergeSkills T holding merge (m, inner m "skills/list" params)).policy m ∧
      Below (mergeSkills T holding merge (m, inner m "skills/list" params)).policy
          merge.policy := by
  unfold mergeSkills
  dsimp only
  split
  · exact ⟨within_observeFailure merge.policy, below_observeFailure merge.policy⟩
  · next result hok =>
    split
    · exact ⟨within_observeFailure merge.policy, below_observeFailure merge.policy⟩
    · split
      · exact ⟨within_observeFailure merge.policy, below_observeFailure merge.policy⟩
      · exact ⟨within_observe hok, below_observe⟩

/-- **A merge of all answers is within each.** -/
theorem within_foldl {step : Merge → AggregateMember × Except McpError Fields → Merge}
    (hstep : ∀ merge m, Within inner method params (step merge (m, inner m method params)).policy m
      ∧ Below (step merge (m, inner m method params)).policy merge.policy) (merge : Merge) :
    (∀ m ∈ members, Within inner method params
        ((outcomes inner members method params).foldl step merge).policy m) ∧
      Below ((outcomes inner members method params).foldl step merge).policy merge.policy := by
  induction members generalizing merge with
  | nil => exact ⟨fun _ hm => absurd hm List.not_mem_nil, fun ttl httl => ⟨ttl, le_rfl, httl⟩, id⟩
  | cons m members ih =>
    obtain ⟨hrest, hbelow⟩ := ih (step merge (m, inner m method params))
    obtain ⟨hwithin, hstepped⟩ := hstep merge m
    exact ⟨List.forall_mem_cons.mpr ⟨hwithin.mono hbelow, hrest⟩, hbelow.trans hstepped⟩

/-- **What a list advertises** is within the answer of every member. -/
def Advertised (inner : Inner) (members : List AggregateMember) (method : String) (params : Json)
    (result : Fields) : Prop :=
  ∀ m ∈ members,
    (∀ ttl, ttlOf result = some ttl → 0 < ttl →
      ∃ answer own, inner m method params = .ok answer ∧ Fresh answer own ∧ ttl ≤ own)
    ∧ (strField result "cacheScope" = some "public" →
      ∃ answer, inner m method params = .ok answer ∧ Shared answer)

theorem advertised_of_within {merge : Merge}
    (h : ∀ m ∈ members, Within inner method params merge.policy m) :
    Advertised inner members method params (merge.result listKey elapsed) := by
  intro m hm
  obtain ⟨allowed, hallowed, hfresh, hshared⟩ := h m hm
  refine ⟨fun ttl httl hpos => ?_, fun hscope => hshared ?_⟩
  · obtain ⟨own, hown, hle⟩ := ttlOf_age httl
    unfold AggregateCachePolicy.apply at hown
    rw [ttlOf, IndexMap.get_insert_of_ne _ _ (by decide),
      IndexMap.get_insert_self, hallowed] at hown
    have hle' : own ≤ allowed := by
      obtain rfl := Option.some.inj hown
      exact toNat_ofNat_le _
    obtain ⟨answer, kept, hok, hkept, hle''⟩ := hfresh (hpos.trans_le (hle.trans hle'))
    exact ⟨answer, kept, hok, hkept, (hle.trans hle').trans hle''⟩
  · unfold Merge.result AggregateCachePolicy.apply at hscope
    rw [strField_age (by decide), strField, IndexMap.get_insert_self] at hscope
    cases hon : merge.policy.shared with
    | true => rfl
    | false =>
      rw [hon] at hscope
      exact absurd (Option.some.inj hscope) (by decide)

theorem advertised_fanout {prefixField namespaceField : Option String} :
    Advertised inner members method params
      (fanoutList inner holding members method params listKey prefixField namespaceField) :=
  advertised_of_within (within_foldl (fun merge m =>
    policy_mergeList (m := m) (shownEntry · prefixField namespaceField) merge) {}).1

theorem advertised_fanoutSkills : Advertised inner members "skills/list" params
    (fanoutSkills T inner holding members params) :=
  advertised_of_within (within_foldl (fun merge m => policy_mergeSkills (m := m) merge) {}).1

end BitRouter.Mcp
