import BitRouter.Ai.Usage
import Mathlib.Data.Int.Notation

/-!
# Configured rates and charge evidence

`metering/pricing.rs`: the configured per-token rates of a model, in
micro-dollars as binary floats, and the evidence a settlement records. The
evidence says whether a charge was computed, from which buckets and rates,
and otherwise why not.
-/

namespace BitRouter.Metering

open Ai

/-- Declared processing profiles of configured rates. -/
inductive PricingEndpointProfile
  | openaiGlobal
  | openaiUs
  | openaiEurope
  deriving DecidableEq, Repr

/-- A higher context bracket of configured rates. -/
structure ContextTier where
  aboveInputTokens : UInt64 := 0
  inputMicroUsdPerToken : Option Float := none
  cacheReadMicroUsdPerToken : Option Float := none
  cacheWriteMicroUsdPerToken : Option Float := none
  outputMicroUsdPerToken : Option Float := none

/-- Configured rates of a model, each absent or set. -/
structure ModelPricing where
  endpointProfile : Option PricingEndpointProfile := none
  inputMicroUsdPerToken : Option Float := none
  cacheReadMicroUsdPerToken : Option Float := none
  cacheWriteMicroUsdPerToken : Option Float := none
  outputMicroUsdPerToken : Option Float := none
  contextTiers : List ContextTier := []

namespace ModelPricing

/-- The bracket with the greatest threshold the input exceeds, the last one
of those that share it. -/
def bracketFor (tiers : List ContextTier) (inputTokens : UInt64) : Option ContextTier :=
  (tiers.filter (fun t => t.aboveInputTokens < inputTokens)).foldl
    (fun best t => match best with
      | none => some t
      | some b => if b.aboveInputTokens ≤ t.aboveInputTokens then some t else some b) none

/-- The flat rates of a request with this many input tokens. -/
def resolveForInputTokens (p : ModelPricing) (inputTokens : UInt64) : ModelPricing :=
  match bracketFor p.contextTiers inputTokens with
  | some tier =>
    { endpointProfile := p.endpointProfile
      inputMicroUsdPerToken := tier.inputMicroUsdPerToken.or p.inputMicroUsdPerToken
      cacheReadMicroUsdPerToken := tier.cacheReadMicroUsdPerToken.or p.cacheReadMicroUsdPerToken
      cacheWriteMicroUsdPerToken :=
        tier.cacheWriteMicroUsdPerToken.or p.cacheWriteMicroUsdPerToken
      outputMicroUsdPerToken := tier.outputMicroUsdPerToken.or p.outputMicroUsdPerToken }
  | none => { p with contextTiers := [] }

end ModelPricing

/-- Whether a charge was computed from complete evidence. -/
inductive ChargeStatus
  | computed
  | notCharged
  | unknown
  | legacyUnknown
  deriving DecidableEq, Repr

/-- Where the rates of a settlement came from. -/
inductive PricingSource
  | configured
  | override
  | authoritativeReceipt
  | unknown
  deriving DecidableEq, Repr

/-- The rates after context-tier inheritance. -/
structure EffectivePricingRates where
  uncachedInputMicroUsdPerToken : Option Float := none
  cacheReadMicroUsdPerToken : Option Float := none
  cacheWriteMicroUsdPerToken : Option Float := none
  outputMicroUsdPerToken : Option Float := none

/-- A lossless rational amount for one proven scope. -/
structure ExactRegistryCharge where
  currency : String
  numerator : String
  denominator : String
  scope : String
  deriving DecidableEq, Repr

/-- The auditable result of pricing a usage, `τ` being the frozen tariff it
may carry. -/
structure ChargeEvidence (τ : Type) where
  exactRegistryCharge : Option ExactRegistryCharge
  tariffSnapshot : Option τ
  status : ChargeStatus
  chargeMicroUsd : Option ℤ
  normalizedUsage : NormalizedUsage
  effectiveRates : EffectivePricingRates
  pricingSource : PricingSource
  pricingVersion : String
  unknownReason : Option String

section Evidence

variable {τ : Type}

def unknownEvidence (normalized : NormalizedUsage) (rates : EffectivePricingRates)
    (source : PricingSource) (version reason : String) : ChargeEvidence τ where
  exactRegistryCharge := none
  tariffSnapshot := none
  status := .unknown
  chargeMicroUsd := none
  normalizedUsage := normalized
  effectiveRates := rates
  pricingSource := source
  pricingVersion := version
  unknownReason := some reason

/-- Evidence for a request with no usable price. -/
def unavailableChargeEvidence (usage : Usage) (reason : String) : ChargeEvidence τ :=
  let normalized := match usage.normalizedBuckets with
    | .ok n => n
    | .error _ => {}
  unknownEvidence normalized {} .unknown "sha256:unavailable" reason

/-- Tokens of one bucket beyond this are not trusted. -/
def maxTrustedTokens : UInt64 := 10000000

/-- Add a bucket to the group of its rate, groups in first-seen order. -/
def addRateGroup (tokens : UInt64) (rate : Float) :
    List (UInt64 × Float) → List (UInt64 × Float)
  | [] => [(tokens, rate)]
  | (n, r) :: groups =>
    if r.toBits = rate.toBits then
      (if n.toNat + tokens.toNat < 2 ^ 64 then n + tokens else UInt64.ofNat (2 ^ 64 - 1), r)
        :: groups
    else (n, r) :: addRateGroup tokens rate groups

def calculateNormalizedChargeMicroUsd (normalized : NormalizedUsage)
    (rates : EffectivePricingRates) : Except String ℤ := do
  let buckets : List (UInt64 × Option Float × String × String) :=
    [(normalized.uncachedInputTokens, rates.uncachedInputMicroUsdPerToken,
        "missing_uncached_input_rate", "invalid_uncached_input_rate"),
      (normalized.cacheReadTokens, rates.cacheReadMicroUsdPerToken,
        "missing_cache_read_rate", "invalid_cache_read_rate"),
      (normalized.cacheWriteTokens, rates.cacheWriteMicroUsdPerToken,
        "missing_cache_write_rate", "invalid_cache_write_rate"),
      (normalized.outputTokens, rates.outputMicroUsdPerToken,
        "missing_output_rate", "invalid_output_rate"),
      (normalized.reasoningTokens, rates.outputMicroUsdPerToken,
        "missing_output_rate", "invalid_output_rate")]
  let groups ← buckets.foldlM (fun groups (tokens, rate, missing, bad) =>
    if tokens = 0 then return groups
    else do
      let rate ← orFail rate missing
      ensure (rate.isFinite = true ∧ ¬ rate < 0) bad
      return addRateGroup (min tokens maxTrustedTokens) rate groups) []
  let charge := groups.foldl (fun sum (tokens, rate) => sum + tokens.toFloat * rate) (-0.0 : Float)
  ensure (charge.isFinite = true) "invalid_charge_total"
  return (max charge.round 0).toInt64.toInt

/-- Pricing of a usage under configured rates. The version is a digest of
the whole entry, computed by the caller. -/
def calculateChargeEvidence (usage : Usage) (pricing : ModelPricing) (source : PricingSource)
    (version : String) : ChargeEvidence τ :=
  let resolved := pricing.resolveForInputTokens usage.promptTokens
  let rates : EffectivePricingRates :=
    { uncachedInputMicroUsdPerToken := resolved.inputMicroUsdPerToken
      cacheReadMicroUsdPerToken := resolved.cacheReadMicroUsdPerToken
      cacheWriteMicroUsdPerToken := resolved.cacheWriteMicroUsdPerToken
      outputMicroUsdPerToken := resolved.outputMicroUsdPerToken }
  match usage.normalizedBuckets with
  | .error .inputBucketsOverlap =>
    unknownEvidence {} rates source version "invalid_input_buckets"
  | .error .outputBucketsOverlap =>
    unknownEvidence {} rates source version "invalid_output_buckets"
  | .ok normalized =>
    match calculateNormalizedChargeMicroUsd normalized rates with
    | .error reason => unknownEvidence normalized rates source version reason
    | .ok charge =>
      { exactRegistryCharge := none
        tariffSnapshot := none
        status := .computed
        chargeMicroUsd := some charge
        normalizedUsage := normalized
        effectiveRates := rates
        pricingSource := source
        pricingVersion := version
        unknownReason := none }

end Evidence

end BitRouter.Metering
