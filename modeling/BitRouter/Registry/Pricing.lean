import BitRouter.Data.Scan
import BitRouter.Registry.Document
import Mathlib.Algebra.BigOperators.Group.List.Basic

/-!
# Exact proportional charges

`pricing.rs`: the charge of one attempt under one tariff. A token tariff
prices five disjoint counters, each at the entry of the active context tier
or, where that tier has none, of the base; a metered tariff prices the
meters it lists. A charge is an exact rational or an error, never a partial
sum.

The results are about token tariffs. The tier found by scanning the document
backwards is the one with the greatest threshold below the input total,
because admission makes the thresholds ascend, and with all counters known
the charge is the sum of the five products or, when a positive counter has
no rate, an error.
-/

namespace BitRouter.Registry

/-- Proven disjoint token counters, `none` where unknown. -/
structure TokenUsage where
  uncachedInput : Option ℕ := none
  cacheRead : Option ℕ := none
  cacheWrite : Option ℕ := none
  nonReasoningOutput : Option ℕ := none
  reasoningOutput : Option ℕ := none

/-- A meter observation, already proven billable. -/
structure MeterUsage where
  unit : String
  quantity : ℚ

/-- Checked addition of a counter to a `u64` sum. -/
def addCount (sum : ℕ) (count : Option ℕ) : Option ℕ :=
  count.bind (fun n => if sum + n < 2 ^ 64 then some (sum + n) else none)

def inputTotal (usage : TokenUsage) : Option ℕ :=
  [usage.uncachedInput, usage.cacheRead, usage.cacheWrite].foldlM addCount 0

/-- The last tier of the document whose threshold the input exceeds. -/
def activeTier (price : Value) (inputTotal : ℕ) : Option Value :=
  price["context_tiers"].items.reverse.find?
    (fun tier => (integer tier["above_input_tokens"]).any (· < inputTotal))

/-- The entry a bucket is charged at: the tier's, else the base one. -/
def bucketEntry (price : Value) (tier : Option Value) (group name : String) : Option Value :=
  (tier.bind (fun v => rateEntry v group name)).or (rateEntry price group name)

/-- One round of the sum over the buckets. -/
def addBucket (price : Value) (tier : Option Value) (total : ℚ)
    (bucket : String × String × Option ℕ) : Except RegistryError ℚ := do
  let count ← orFail bucket.2.2
    (unavailable "Unknown token category; absence must be proven by the codec")
  if count = 0 then return total
  else
    let rate ← orFail (bucketEntry price tier bucket.1 bucket.2.1)
      (unavailable "Missing rate for billable usage")
    let exact ← decimal rate.render
    return total + exact * count / 1000000

def tokenCharge (price : Value) (usage : TokenUsage) : Except RegistryError ℚ := do
  let total ← orFail (inputTotal usage) (unavailable "Missing or overflowing input usage")
  [("input_tokens", "no_cache", usage.uncachedInput),
    ("input_tokens", "cache_read", usage.cacheRead),
    ("input_tokens", "cache_write", usage.cacheWrite),
    ("output_tokens", "text", usage.nonReasoningOutput),
    ("output_tokens", "reasoning", usage.reasoningOutput)].foldlM
      (addBucket price (activeTier price total)) 0

/-- One round of the sum over the meters. -/
def addMeter (usage : List (String × MeterUsage)) (total : ℚ) (meter : Value) :
    Except RegistryError ℚ := do
  let id ← orFail meter["id"].asStr (unavailable "Invalid meter identity")
  let counter ← orFail (usage.lookup id)
    (unavailable "Meter counter is not implemented or usage is unknown")
  ensure (¬ (counter.quantity < 0 ∨ meter["unit"].asStr ≠ some counter.unit))
    (unavailable "Meter counter has incompatible units or negative quantity")
  let quantity ← orFail ((integer meter["quantity"]).filter (0 < ·))
    (unavailable "Invalid tariff quantity")
  let amount ← orFail meter["amount"].asStr (unavailable "Invalid tariff amount")
  let exact ← decimal amount
  return total + counter.quantity * exact / quantity

def meteredCharge (price : Value) (usage : List (String × MeterUsage)) :
    Except RegistryError ℚ := do
  let meters ← orFail (price["meters"].asArray.filter (fun m => ¬ m.isEmpty))
    (unavailable "Missing meters")
  meters.foldlM (addMeter usage) 0

/-- The processing profiles a tariff may declare. -/
def knownProfiles : List String := ["openai_global", "openai_us", "openai_europe"]

def profileAccepted (price : Value) (endpointProfile : Option String) : Prop :=
  ∀ declared ∈ (price.get "endpoint_profile").bind Value.asStr,
    declared ∈ knownProfiles ∧ endpointProfile = some declared

instance (price : Value) (endpointProfile : Option String) :
    Decidable (profileAccepted price endpointProfile) :=
  inferInstanceAs (Decidable (∀ declared ∈ _, _))

/-- **The charge of one attempt.** -/
def charge (price : Value) (tokens : TokenUsage) (meters : List (String × MeterUsage))
    (endpointProfile : Option String) (policy : ReaderPolicy) : Except RegistryError ℚ := do
  ensure (policy.supports price = true ∧ price["currency"].isStr "USD" = true)
    (unavailable "Unsupported required price semantics or currency")
  ensure (profileAccepted price endpointProfile)
    (unavailable "Processing profile has not been verified for this deployment")
  match price["kind"].asStr with
  | some "token" => tokenCharge price tokens
  | some "metered" => meteredCharge price meters
  | _ => .error (unavailable "Unknown tariff kind")

/-! ## The active tier -/

/-- The tier of an input total: one with the greatest threshold strictly
below it. -/
abbrev IsActiveTier (price : Value) (inputTotal : ℕ) : Option Value → Prop :=
  IsGreatestBelow threshold price["context_tiers"].items inputTotal

/-- **The scan finds the active tier, and there is no other.** -/
theorem TokenPrice.isActiveTier_iff {price : Value} (h : TokenPrice price) {inputTotal : ℕ}
    {tier : Option Value} :
    IsActiveTier price inputTotal tier ↔ tier = activeTier price inputTotal := by
  have hscan : activeTier price inputTotal =
      price["context_tiers"].items.reverse.find? (fun tier => threshold tier < inputTotal) := by
    refine List.find?_congr (fun tier htier => ?_)
    rw [h.integral tier (List.mem_reverse.mp htier), Option.any_some]
  have hactive : IsActiveTier price inputTotal (activeTier price inputTotal) := by
    rw [hscan]
    exact find?_reverse_isGreatestBelow h.ascending inputTotal
  constructor
  · exact fun ht => ht.unique h.ascending hactive
  · rintro rfl
    exact hactive

theorem activeTier_mem {price tier : Value} {inputTotal : ℕ}
    (h : activeTier price inputTotal = some tier) : tier ∈ price["context_tiers"].items :=
  List.mem_reverse.mp (List.mem_of_find?_eq_some h)

/-! ## The charge of known counters -/

/-- All five counters. -/
structure TokenCounts where
  uncachedInput : ℕ
  cacheRead : ℕ
  cacheWrite : ℕ
  nonReasoningOutput : ℕ
  reasoningOutput : ℕ

namespace TokenCounts

/-- The counters as proven usage. -/
def usage (c : TokenCounts) : TokenUsage where
  uncachedInput := some c.uncachedInput
  cacheRead := some c.cacheRead
  cacheWrite := some c.cacheWrite
  nonReasoningOutput := some c.nonReasoningOutput
  reasoningOutput := some c.reasoningOutput

def input (c : TokenCounts) : ℕ := c.uncachedInput + c.cacheRead + c.cacheWrite

/-- The five disjoint buckets: group, name and count. -/
def buckets (c : TokenCounts) : List (String × String × ℕ) :=
  [("input_tokens", "no_cache", c.uncachedInput),
    ("input_tokens", "cache_read", c.cacheRead),
    ("input_tokens", "cache_write", c.cacheWrite),
    ("output_tokens", "text", c.nonReasoningOutput),
    ("output_tokens", "reasoning", c.reasoningOutput)]

/-- Every bucket of a positive count has an entry. -/
def Priced (c : TokenCounts) (price : Value) (tier : Option Value) : Prop :=
  ∀ b ∈ c.buckets, 0 < b.2.2 → (bucketEntry price tier b.1 b.2.1).isSome

instance (c : TokenCounts) (price : Value) (tier : Option Value) :
    Decidable (c.Priced price tier) :=
  inferInstanceAs (Decidable (∀ b ∈ _, _))

/-- The exact amount of one bucket, in dollars. -/
def amount (price : Value) (tier : Option Value) (b : String × String × ℕ) : ℚ :=
  ((bucketEntry price tier b.1 b.2.1).map rateValue).getD 0 * b.2.2 / 1000000

/-- The exact sum over the buckets. -/
def total (c : TokenCounts) (price : Value) (tier : Option Value) : ℚ :=
  (c.buckets.map (amount price tier)).sum

end TokenCounts

theorem addCount_of_lt {sum n : ℕ} (h : sum + n < 2 ^ 64) :
    addCount sum (some n) = some (sum + n) := by
  rw [addCount, Option.bind_some, if_pos h]

theorem inputTotal_usage {c : TokenCounts} (h : c.input < 2 ^ 64) :
    inputTotal c.usage = some c.input := by
  unfold TokenCounts.input at h
  have h₁ : addCount 0 (some c.uncachedInput) = some c.uncachedInput := by
    rw [addCount_of_lt (by omega), Nat.zero_add]
  have h₂ : addCount c.uncachedInput (some c.cacheRead) = some (c.uncachedInput + c.cacheRead) :=
    addCount_of_lt (by omega)
  have h₃ := addCount_of_lt h
  simp only [inputTotal, TokenCounts.usage, TokenCounts.input, List.foldlM_cons,
    List.foldlM_nil, bind, pure, Option.bind_some, h₁, h₂, h₃]

section

variable {names : List String} {name : String} {price : Value} {group : String}
  (h : TokenPrice price) (hgroup : (group, names) ∈ knownRates) (hname : name ∈ names)

include h hgroup hname

theorem TokenPrice.bucketEntry_exact {inputTotal : ℕ} {v : Value}
    (hv : bucketEntry price (activeTier price inputTotal) group name = some v) :
    decimal v.render = .ok (rateValue v) := by
  rcases Option.or_eq_some_iff.mp hv with htier | ⟨-, hbase⟩
  · obtain ⟨tier, hactive, hentry⟩ := Option.bind_eq_some_iff.mp htier
    exact h.rate tier (List.mem_cons_of_mem _ (activeTier_mem hactive)) group names hgroup
      name hname v hentry
  · exact h.rate price List.mem_cons_self group names hgroup name hname v hbase

/-- One round of the sum, for a known count. -/
theorem TokenPrice.addBucket_eq {inputTotal : ℕ} (total : ℚ) (count : ℕ) :
    addBucket price (activeTier price inputTotal) total (group, name, some count) =
      if 0 < count → (bucketEntry price (activeTier price inputTotal) group name).isSome
      then .ok (total + TokenCounts.amount price (activeTier price inputTotal)
        (group, name, count))
      else .error (unavailable "Missing rate for billable usage") := by
  rcases Nat.eq_zero_or_pos count with rfl | hpos
  · simp [addBucket, orFail, TokenCounts.amount, bind, Except.bind, pure, Except.pure]
  · cases hentry : bucketEntry price (activeTier price inputTotal) group name with
    | none =>
      simp [addBucket, orFail, hentry, hpos, hpos.ne', bind, Except.bind]
    | some v =>
      simp [addBucket, orFail, hentry, hpos.ne', h.bucketEntry_exact hgroup hname hentry,
        TokenCounts.amount, bind, Except.bind, pure, Except.pure]

end

/-- **The sum over the buckets of known counts** is their total, or an
error when a positive count has no entry. -/
theorem TokenPrice.foldlM_addBucket {price : Value} (h : TokenPrice price) (inputTotal : ℕ)
    {bs : List (String × String × ℕ)}
    (hbs : ∀ b ∈ bs, ∃ names, (b.1, names) ∈ knownRates ∧ b.2.1 ∈ names) (start : ℚ) :
    (bs.map (fun b => (b.1, b.2.1, some b.2.2))).foldlM
        (addBucket price (activeTier price inputTotal)) start =
      if ∀ b ∈ bs, 0 < b.2.2 → (bucketEntry price (activeTier price inputTotal) b.1 b.2.1).isSome
      then .ok (start + (bs.map (TokenCounts.amount price (activeTier price inputTotal))).sum)
      else .error (unavailable "Missing rate for billable usage") := by
  induction bs generalizing start with
  | nil => simp [pure, Except.pure]
  | cons b bs ih =>
    obtain ⟨hb, hbs⟩ := List.forall_mem_cons.mp hbs
    obtain ⟨names, hgroup, hname⟩ := hb
    rw [List.map_cons, List.foldlM_cons, h.addBucket_eq hgroup hname]
    simp only [List.forall_mem_cons]
    by_cases hfirst : 0 < b.2.2 →
        (bucketEntry price (activeTier price inputTotal) b.1 b.2.1).isSome
    · rw [if_pos hfirst]
      show List.foldlM _ _ _ = _
      rw [ih hbs]
      simp only [List.map_cons, List.sum_cons, add_assoc, and_iff_right hfirst]
    · rw [if_neg hfirst, if_neg (fun hall => hfirst hall.1)]
      rfl

theorem buckets_known (c : TokenCounts) :
    ∀ b ∈ c.buckets, ∃ names, (b.1, names) ∈ knownRates ∧ b.2.1 ∈ names := by
  simp [TokenCounts.buckets, knownRates]

theorem TokenPrice.tokenCharge_eq {price : Value} (h : TokenPrice price) {c : TokenCounts}
    (hfits : c.input < 2 ^ 64) :
    tokenCharge price c.usage =
      if c.Priced price (activeTier price c.input)
      then .ok (c.total price (activeTier price c.input))
      else .error (unavailable "Missing rate for billable usage") := by
  have hsum := h.foldlM_addBucket c.input (buckets_known c) 0
  rw [zero_add] at hsum
  rw [tokenCharge, inputTotal_usage hfits]
  exact hsum

/-- A token tariff whose currency, features and profile are accepted is
charged by its counters. -/
theorem charge_token {price : Value} {tokens : TokenUsage}
    {meters : List (String × MeterUsage)} {profile : Option String} {policy : ReaderPolicy}
    (hkind : price["kind"].asStr = some "token") (hsupports : policy.supports price = true)
    (hcurrency : price["currency"].isStr "USD" = true) (hprofile : profileAccepted price profile) :
    charge price tokens meters profile policy = tokenCharge price tokens := by
  rw [charge, ensure, if_pos ⟨hsupports, hcurrency⟩, ensure, if_pos hprofile, hkind]
  rfl

theorem profileAccepted_of_charge {price : Value} {tokens : TokenUsage}
    {meters : List (String × MeterUsage)} {profile : Option String} {policy : ReaderPolicy}
    {q : ℚ} (h : charge price tokens meters profile policy = .ok q) :
    profileAccepted price profile := by
  obtain ⟨_, -, h⟩ := bind_eq_ok.mp h
  obtain ⟨_, hprofile, -⟩ := bind_eq_ok.mp h
  exact ensure_eq_ok.mp hprofile

/-- **Charges are exact.** Under an admitted token price with accepted
currency, features and profile, five known counters whose input total fits
are charged with the tier of the greatest threshold strictly below that
total: the charge is the exact sum of count times rate over the buckets,
each rate from the tier or else from the base, and it fails exactly when a
bucket of positive count has neither. -/
theorem charge_exact {price : Value} {path : String} (c : TokenCounts)
    (meters : List (String × MeterUsage)) {profile : Option String} {policy : ReaderPolicy}
    (hadmitted : validatePrice price path = .ok ()) (hkind : price["kind"].asStr = some "token")
    (hsupports : policy.supports price = true) (hcurrency : price["currency"].isStr "USD" = true)
    (hprofile : profileAccepted price profile) (hfits : c.input < 2 ^ 64) :
    ∃ tier, (∀ tier', IsActiveTier price c.input tier' ↔ tier' = tier) ∧
      (∀ q, charge price c.usage meters profile policy = .ok q ↔
        c.Priced price tier ∧ q = c.total price tier) ∧
      ((∃ e, charge price c.usage meters profile policy = .error e) ↔ ¬ c.Priced price tier) ∧
      (∀ b ∈ c.buckets, ∀ v, bucketEntry price tier b.1 b.2.1 = some v →
        decimal v.render = .ok (rateValue v)) := by
  have hprice := TokenPrice.of_validatePrice hkind hadmitted
  refine ⟨activeTier price c.input, fun _ => hprice.isActiveTier_iff, ?_⟩
  rw [charge_token hkind hsupports hcurrency hprofile, hprice.tokenCharge_eq hfits]
  refine ⟨fun q => ?_, ?_, fun b hb v hv => ?_⟩
  · split
    · rename_i hpriced
      simp [hpriced, eq_comm]
    · rename_i hnot
      simp [hnot]
  · split
    · rename_i hpriced
      simp [hpriced]
    · rename_i hnot
      simp [hnot]
  · obtain ⟨names, hgroup, hname⟩ := buckets_known c b hb
    exact hprice.bucketEntry_exact hgroup hname hv

def tieredPrice : Value :=
  .object [("kind", .string "token"), ("currency", .string "USD"),
    ("input_tokens", .object [("no_cache", .number "2"), ("cache_read", .number "1")]),
    ("output_tokens", .object [("text", .number "4"), ("reasoning", .number "8")]),
    ("context_tiers", .array [.object [("above_input_tokens", .number "100"),
      ("input_tokens", .object [("no_cache", .number "3")])]])]

def tieredCounts : TokenCounts := ⟨100, 20, 0, 6, 4⟩

theorem charge_exact_tiered :
    ∃ tier, ∀ q, charge tieredPrice tieredCounts.usage [] none {} = .ok q ↔
      tieredCounts.Priced tieredPrice tier ∧ q = tieredCounts.total tieredPrice tier := by
  have hadmitted : validatePrice tieredPrice "/pricing" = .ok () := by decide +kernel
  have hprofile : profileAccepted tieredPrice none := by decide
  have hsupports : ReaderPolicy.supports {} tieredPrice = true := by decide
  obtain ⟨tier, -, hok, -⟩ := charge_exact tieredCounts [] hadmitted (by decide) hsupports
    (by decide) hprofile (by decide)
  exact ⟨tier, hok⟩

example : charge tieredPrice tieredCounts.usage [] none {} = .ok (376 / 1000000) := by
  decide +kernel

end BitRouter.Registry
