import BitRouter.Ai.Types
import BitRouter.Metering.Pricing
import BitRouter.Registry.Pricing

/-!
# Frozen tariffs

`metering/tariff.rs`: the tariff captured for one effective target, the
admission test of routing that requires a known price, and the evidence a
settlement draws from the tariff alone.

`guaranteesKnownPrice` looks at the base rates of a registry price.
Settlement also selects a tier, compares processing profiles, refuses any
usage with provider-executed searches and rounds to an integer of 64 bits.
`FrozenTariff.chargeEvidence_computed_iff` says exactly which usages of an
admitted tariff are charged.
-/

namespace BitRouter.Metering

open Ai Registry

/-- The tariff frozen for one effective target. -/
structure FrozenTariff where
  registryPrice : Option Value := none
  protocol : ApiProtocol := .chatCompletions
  endpointProfile : String := ""
  tariffProfile : Option String := none
  pricing : Option ModelPricing := none
  pricingVersion : String := ""
  billingBasis : String := ""
  unavailableReason : Option String := none

/-- A usable rate: finite and not negative. -/
def completeRates (pricing : ModelPricing) : Bool :=
  [pricing.inputMicroUsdPerToken, pricing.cacheReadMicroUsdPerToken,
    pricing.cacheWriteMicroUsdPerToken, pricing.outputMicroUsdPerToken].all
      (fun rate => rate.any (fun r => r.isFinite ∧ 0 ≤ r))

/-- `BigRational::to_integer`, towards zero. -/
def toInteger (q : ℚ) : ℤ := q.num.tdiv q.den

/-- `ToPrimitive::to_i64`. -/
def toI64 (n : ℤ) : Option ℤ := if -2 ^ 63 ≤ n ∧ n < 2 ^ 63 then some n else none

namespace FrozenTariff

/-- The rates that have to be numbers for a known price. -/
def requiredRates : List (List String) :=
  [["input_tokens", "no_cache"], ["input_tokens", "cache_read"], ["input_tokens", "cache_write"],
    ["output_tokens", "text"], ["output_tokens", "reasoning"]]

/-- **The admission test of routing that requires a known price.** -/
def guaranteesKnownPrice (t : FrozenTariff) : Bool :=
  match t.registryPrice with
  | some price =>
    t.protocol ≠ .decisions && t.unavailableReason.isNone && price["kind"].isStr "token"
      && price["currency"].isStr "USD" && ReaderPolicy.supports {} price
      && requiredRates.all (fun p => (price.pointer p).any Value.isNumber)
  | none =>
    if t.protocol = .decisions ∨ t.unavailableReason.isSome then false
    else t.pricing.any (fun pricing => completeRates pricing
      && pricing.contextTiers.all (fun tier => completeRates (pricing.resolveForInputTokens
        (UInt64.ofNat (min (tier.aboveInputTokens.toNat + 1) (2 ^ 64 - 1))))))

/-- The calculation of a registry charge, if every part of it is known. -/
def registryCharge (t : FrozenTariff) (price : Value) (usage : Usage) :
    Option (ℤ × NormalizedUsage × ExactRegistryCharge) :=
  if t.unavailableReason.isSome
      ∨ usage.origin ∉ [UsageOrigin.providerReported, .authoritativeReceipt]
      ∨ 0 < usage.webSearchCount then none
  else if t.protocol = .decisions ∧ (0 < usage.cacheReadTokens ∨ 0 < usage.cacheWriteTokens) then
    none
  else
    match usage.normalizedBuckets with
    | .error _ => none
    | .ok n =>
      let tokens : TokenUsage :=
        { uncachedInput := some n.uncachedInputTokens.toNat
          cacheRead := some n.cacheReadTokens.toNat
          cacheWrite := some n.cacheWriteTokens.toNat
          nonReasoningOutput := some n.outputTokens.toNat
          reasoningOutput := some n.reasoningTokens.toNat }
      -- no meter is inferred from a response: metered tariffs stay unavailable
      match charge price tokens [] t.tariffProfile {} with
      | .error _ => none
      | .ok amount =>
        let exact : ExactRegistryCharge :=
          { currency := "USD"
            numerator := toString amount.num
            denominator := toString amount.den
            scope := "attempt" }
        (toI64 (toInteger (amount * 1000000 + 1 / 2))).map (fun rounded => (rounded, n, exact))

def registryChargeEvidence (t : FrozenTariff) (price : Value) (usage : Usage)
    (source : PricingSource) : ChargeEvidence FrozenTariff :=
  let evidence : ChargeEvidence FrozenTariff := unavailableChargeEvidence usage
    (t.unavailableReason.getD "registry_price_or_usage_unavailable")
  let evidence : ChargeEvidence FrozenTariff := match t.registryCharge price usage with
    | some (amount, normalized, exact) =>
      { evidence with
        exactRegistryCharge := some exact
        status := .computed
        chargeMicroUsd := some amount
        normalizedUsage := normalized
        pricingSource := source
        unknownReason := none }
    | none => evidence
  { evidence with pricingVersion := t.pricingVersion, tariffSnapshot := some t }

/-- **Apply only the admitted tariff**, which the evidence keeps even when
there is no charge. -/
def chargeEvidence (t : FrozenTariff) (usage : Usage) (source : PricingSource) :
    ChargeEvidence FrozenTariff :=
  match t.registryPrice with
  | some price => t.registryChargeEvidence price usage source
  | none =>
    let reason : Option String :=
      if usage.origin = .unknown then some "usage_unavailable"
      else if t.unavailableReason.isSome then t.unavailableReason
      else if t.protocol = .decisions
          ∧ (usage.cacheReadTokens ≠ 0 ∨ usage.cacheWriteTokens ≠ 0) then
        some "decisions_cache_billing_unverified"
      else none
    let evidence : ChargeEvidence FrozenTariff := match reason, t.pricing with
      | some reason, _ => unavailableChargeEvidence usage reason
      | none, some pricing => calculateChargeEvidence usage pricing source t.pricingVersion
      | none, none => unavailableChargeEvidence usage "pricing_not_found"
    { evidence with pricingVersion := t.pricingVersion, tariffSnapshot := some t }

end FrozenTariff

/-! ## Rounding to an integer of 64 bits -/

theorem toInteger_of_nonneg {q : ℚ} (h : 0 ≤ q) : toInteger q = ⌊q⌋ := by
  rw [toInteger, Rat.floor_def', Int.tdiv_eq_ediv_of_nonneg (Rat.num_nonneg.mpr h)]

theorem toI64_round_isSome {q : ℚ} (h : 0 ≤ q) :
    (toI64 (toInteger (q + 1 / 2))).isSome ↔ q < 2 ^ 63 - 1 / 2 := by
  have hnonneg : 0 ≤ q + 1 / 2 := by positivity
  have hfloor : (0 : ℤ) ≤ ⌊q + 1 / 2⌋ := Int.floor_nonneg.mpr hnonneg
  rw [toInteger_of_nonneg hnonneg, toI64]
  have hlt : ⌊q + 1 / 2⌋ < 2 ^ 63 ↔ q < 2 ^ 63 - 1 / 2 := by
    rw [Int.floor_lt]
    push_cast
    constructor <;> intro hq <;> linarith
  by_cases hq : q < 2 ^ 63 - 1 / 2
  · rw [if_pos ⟨by omega, hlt.mpr hq⟩]
    exact iff_of_true rfl hq
  · rw [if_neg (fun hc => hq (hlt.mp hc.2))]
    exact iff_of_false Bool.false_ne_true hq

/-! ## The buckets of a normalized usage -/

/-- The buckets as token counters. -/
def counts (n : NormalizedUsage) : TokenCounts where
  uncachedInput := n.uncachedInputTokens.toNat
  cacheRead := n.cacheReadTokens.toNat
  cacheWrite := n.cacheWriteTokens.toNat
  nonReasoningOutput := n.outputTokens.toNat
  reasoningOutput := n.reasoningTokens.toNat

theorem counts_input {u : Usage} {n : NormalizedUsage} (h : u.normalizedBuckets = .ok n) :
    (counts n).input = u.promptTokens.toNat :=
  Usage.normalizedBuckets_input h

/-- The sum of count times rate per million tokens over the buckets: the
charge in micro-dollars. -/
def microUsd (c : TokenCounts) (price : Value) (tier : Option Value) : ℚ :=
  (c.buckets.map (fun b =>
    ((bucketEntry price tier b.1 b.2.1).map rateValue).getD 0 * b.2.2)).sum

theorem total_mul (c : TokenCounts) (price : Value) (tier : Option Value) :
    c.total price tier * 1000000 = microUsd c price tier := by
  unfold TokenCounts.total microUsd TokenCounts.amount
  rw [← List.sum_map_mul_right]
  congr 2
  funext b
  ring

theorem rateValue_nonneg (v : Value) : 0 ≤ rateValue v := by
  unfold rateValue
  cases h : decimal v.render with
  | ok q => exact decimal_nonneg h
  | error e => exact le_rfl

theorem microUsd_nonneg (c : TokenCounts) (price : Value) (tier : Option Value) :
    0 ≤ microUsd c price tier := by
  refine List.sum_nonneg (fun x hx => ?_)
  obtain ⟨b, -, rfl⟩ := List.mem_map.mp hx
  have hrate : 0 ≤ ((bucketEntry price tier b.1 b.2.1).map rateValue).getD 0 := by
    cases bucketEntry price tier b.1 b.2.1 with
    | none => exact le_rfl
    | some v => exact rateValue_nonneg v
  positivity

/-! ## What a known price covers -/

variable {price : Value} {t : FrozenTariff}

namespace FrozenTariff

/-- What the admission test establishes of a registry price. -/
structure Guaranteed (t : FrozenTariff) (price : Value) : Prop where
  protocol : t.protocol ≠ .decisions
  available : t.unavailableReason = none
  kind : price["kind"].asStr = some "token"
  currency : price["currency"].isStr "USD" = true
  supported : ReaderPolicy.supports {} price = true
  rates : ∀ p ∈ requiredRates, (price.pointer p).any Value.isNumber = true

theorem Guaranteed.of_guaranteesKnownPrice (hprice : t.registryPrice = some price)
    (h : t.guaranteesKnownPrice = true) :
    t.Guaranteed price := by
  unfold guaranteesKnownPrice at h
  rw [hprice] at h
  simp only [Bool.and_eq_true, decide_eq_true_eq, Option.isNone_iff_eq_none,
    List.all_eq_true] at h
  obtain ⟨⟨⟨⟨⟨hprotocol, havailable⟩, hkind⟩, hcurrency⟩, hsupported⟩, hrates⟩ := h
  exact ⟨hprotocol, havailable, by simpa [Value.isStr] using hkind, hcurrency, hsupported, hrates⟩

theorem arrayIndex_requiredRates :
    ∀ p ∈ requiredRates, ∀ token ∈ p, Value.arrayIndex token = none := by decide

theorem Guaranteed.rateEntry_isSome (h : t.Guaranteed price) {group name : String}
    (hmem : [group, name] ∈ requiredRates) :
    (rateEntry price group name).isSome := by
  have hgroup := arrayIndex_requiredRates _ hmem group (by simp)
  have hname := arrayIndex_requiredRates _ hmem name (by simp)
  have hpointer : price.pointer [group, name] = rateEntry price group name := by
    simp only [Value.pointer, Value.step_eq_get hgroup, Value.step_eq_get hname, rateEntry]
    cases price.get group with
    | none => rfl
    | some v => simp
  have hnumber := h.rates _ hmem
  rw [hpointer] at hnumber
  exact Option.isSome_of_any hnumber

theorem Guaranteed.priced (h : t.Guaranteed price) (c : TokenCounts) (tier : Option Value) :
    c.Priced price tier := by
  intro b hb _
  have hmem : [b.1, b.2.1] ∈ requiredRates :=
    (List.mem_map_of_mem hb : _ ∈ c.buckets.map (fun b => [b.1, b.2.1]))
  rw [bucketEntry, Option.isSome_or, h.rateEntry_isSome hmem, Bool.or_true]

/-- A known price is charged for a reported usage exactly when no search was
executed, the tariff prices it and the amount rounds to 64 bits. -/
theorem Guaranteed.registryCharge_isSome_iff (h : t.Guaranteed price) {usage : Usage}
    (horigin : usage.origin = .providerReported) {n : NormalizedUsage}
    (hn : usage.normalizedBuckets = .ok n) :
    (t.registryCharge price usage).isSome ↔
      usage.webSearchCount = 0 ∧ ∃ q, charge price (counts n).usage [] t.tariffProfile {} = .ok q
        ∧ (toI64 (toInteger (q * 1000000 + 1 / 2))).isSome := by
  have hcounts : ({ uncachedInput := some n.uncachedInputTokens.toNat
                    cacheRead := some n.cacheReadTokens.toNat
                    cacheWrite := some n.cacheWriteTokens.toNat
                    nonReasoningOutput := some n.outputTokens.toNat
                    reasoningOutput := some n.reasoningTokens.toNat } : TokenUsage)
      = (counts n).usage := rfl
  have hpos : 0 < usage.webSearchCount ↔ ¬ usage.webSearchCount = 0 := UInt64.pos_iff_ne_zero
  simp only [registryCharge, h.available, horigin, hn, h.protocol, hcounts, hpos]
  by_cases hsearch : usage.webSearchCount = 0
  · simp only [hsearch, true_and]
    cases charge price (counts n).usage [] t.tariffProfile {} with
    | error e => simp
    | ok q => simp
  · simp [hsearch]

theorem registryChargeEvidence_computed_iff {usage : Usage} {source : PricingSource} :
    ((t.registryChargeEvidence price usage source).status = .computed
      ∧ (t.registryChargeEvidence price usage source).chargeMicroUsd.isSome)
      ↔ (t.registryCharge price usage).isSome := by
  unfold registryChargeEvidence
  cases t.registryCharge price usage with
  | none => simp [unavailableChargeEvidence, unknownEvidence]
  | some r => simp

/-- **When a known price is charged.** For an admitted registry price that
passes the admission test, a reported usage whose buckets normalize is
charged if and only if no provider-executed search was counted, a declared
processing profile is the tariff's, and the sum of count times rate in the
tier of the prompt rounds to an integer of 64 bits. -/
theorem chargeEvidence_computed_iff {t : FrozenTariff} {price : Value} {path : String}
    (hprice : t.registryPrice = some price) (hadmitted : validatePrice price path = .ok ())
    (hknown : t.guaranteesKnownPrice = true) {usage : Usage}
    (horigin : usage.origin = .providerReported) {n : NormalizedUsage}
    (hn : usage.normalizedBuckets = .ok n) (source : PricingSource) :
    ((t.chargeEvidence usage source).status = .computed
      ∧ (t.chargeEvidence usage source).chargeMicroUsd.isSome) ↔
      usage.webSearchCount = 0 ∧ profileAccepted price t.tariffProfile ∧
        ∀ tier, IsActiveTier price usage.promptTokens.toNat tier →
          microUsd (counts n) price tier < 2 ^ 63 - 1 / 2 := by
  have h := Guaranteed.of_guaranteesKnownPrice hprice hknown
  have htoken := TokenPrice.of_validatePrice h.kind hadmitted
  have hfits : (counts n).input < 2 ^ 64 := by
    rw [counts_input hn]
    exact usage.promptTokens.toNat_lt
  have hcharge (hprofile : profileAccepted price t.tariffProfile) :
      charge price (counts n).usage [] t.tariffProfile {} =
        .ok ((counts n).total price (activeTier price usage.promptTokens.toNat)) := by
    rw [charge_token h.kind h.supported h.currency hprofile, htoken.tokenCharge_eq hfits,
      if_pos (h.priced _ _), counts_input hn]
  have hevidence : t.chargeEvidence usage source = t.registryChargeEvidence price usage source := by
    rw [chargeEvidence, hprice]
  rw [hevidence, registryChargeEvidence_computed_iff, h.registryCharge_isSome_iff horigin hn]
  refine and_congr_right (fun _ => ⟨?_, ?_⟩)
  · rintro ⟨q, hq, hround⟩
    have hprofile := profileAccepted_of_charge hq
    refine ⟨hprofile, fun tier htier => ?_⟩
    rw [hcharge hprofile] at hq
    obtain rfl := Except.ok.inj hq
    rw [total_mul, toI64_round_isSome (microUsd_nonneg _ _ _)] at hround
    rwa [htoken.isActiveTier_iff.mp htier]
  · rintro ⟨hprofile, hsmall⟩
    refine ⟨_, hcharge hprofile, ?_⟩
    rw [total_mul, toI64_round_isSome (microUsd_nonneg _ _ _)]
    exact hsmall _ (htoken.isActiveTier_iff.mpr rfl)

/-! ### A search the price does not cover -/

/-- A flat price of one dollar a million tokens in every bucket. -/
def flatPrice : Value :=
  .object [("kind", .string "token"), ("currency", .string "USD"),
    ("input_tokens", .object [("no_cache", .number "1"), ("cache_read", .number "1"),
      ("cache_write", .number "1")]),
    ("output_tokens", .object [("text", .number "1"), ("reasoning", .number "1")])]

def flatTariff : FrozenTariff where
  registryPrice := some flatPrice
  protocol := .messages

def searchedUsage : Usage where
  promptTokens := 10
  webSearchCount := 1
  origin := .providerReported

/-- **A known price does not cover a search.** The tariff passes the
admission test, and the usage is not charged. -/
theorem searchedUsage_not_computed :
    flatTariff.registryPrice = some flatPrice ∧ validatePrice flatPrice "/pricing" = .ok ()
      ∧ flatTariff.guaranteesKnownPrice = true ∧ searchedUsage.origin = .providerReported
      ∧ searchedUsage.normalizedBuckets = .ok { uncachedInputTokens := 10 }
      ∧ (flatTariff.chargeEvidence searchedUsage .configured).status = .unknown := by
  refine ⟨rfl, ?_, ?_, rfl, rfl, rfl⟩
  · decide +kernel
  · decide +kernel

/-- The same usage without the search is charged. -/
theorem chargeEvidence_computed_unsearched :
    (flatTariff.chargeEvidence { searchedUsage with webSearchCount := 0 } .configured).status
        = .computed
      ∧ (flatTariff.chargeEvidence { searchedUsage with webSearchCount := 0 }
        .configured).chargeMicroUsd.isSome := by
  have hadmitted : validatePrice flatPrice "/pricing" = .ok () := by decide +kernel
  have hknown : flatTariff.guaranteesKnownPrice = true := by decide +kernel
  have hprofile : profileAccepted flatPrice flatTariff.tariffProfile := by decide
  refine (chargeEvidence_computed_iff rfl hadmitted hknown rfl
    (n := { uncachedInputTokens := 10 }) rfl .configured).mpr ⟨rfl, hprofile, fun tier htier => ?_⟩
  cases tier with
  | none => decide +kernel
  | some tier =>
    have hflat : flatPrice["context_tiers"].items = [] := rfl
    exact absurd htier.1 List.not_mem_nil

end FrozenTariff

end BitRouter.Metering
