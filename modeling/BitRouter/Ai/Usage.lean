import BitRouter.Registry.Value

/-!
# Token usage

The counters of `types.rs`. A provider reports inclusive totals: cache reads
and writes are part of the prompt, reasoning is part of the completion.
Settlement works on disjoint buckets, and `normalizedBuckets` refuses a
report whose subsets exceed their totals.
-/

namespace BitRouter.Ai

open Registry (Value)

/-- Where the canonical counters came from. -/
inductive UsageOrigin
  | providerReported
  | authoritativeReceipt
  | estimated
  | unknown
  deriving DecidableEq, Repr

/-- The counters of one turn or of a request, with the provider's own usage
object. -/
structure Usage where
  promptTokens : UInt64 := 0
  completionTokens : UInt64 := 0
  reasoningTokens : UInt64 := 0
  cacheReadTokens : UInt64 := 0
  cacheWriteTokens : UInt64 := 0
  webSearchCount : UInt64 := 0
  origin : UsageOrigin := .unknown
  raw : Option Value := none

/-- Disjoint settlement buckets. -/
structure NormalizedUsage where
  uncachedInputTokens : UInt64 := 0
  cacheReadTokens : UInt64 := 0
  cacheWriteTokens : UInt64 := 0
  outputTokens : UInt64 := 0
  reasoningTokens : UInt64 := 0
  deriving DecidableEq, Repr

inductive UsageNormalizationError
  | inputBucketsOverlap
  | outputBucketsOverlap
  deriving DecidableEq, Repr

namespace Usage

/-- **Inclusive totals as disjoint buckets.** -/
def normalizedBuckets (u : Usage) : Except UsageNormalizationError NormalizedUsage := do
  let cached := u.cacheReadTokens.toNat + u.cacheWriteTokens.toNat
  ensure (cached < 2 ^ 64 ∧ cached ≤ u.promptTokens.toNat) .inputBucketsOverlap
  ensure (u.reasoningTokens.toNat ≤ u.completionTokens.toNat) .outputBucketsOverlap
  return {
    uncachedInputTokens := u.promptTokens - (u.cacheReadTokens + u.cacheWriteTokens)
    cacheReadTokens := u.cacheReadTokens
    cacheWriteTokens := u.cacheWriteTokens
    outputTokens := u.completionTokens - u.reasoningTokens
    reasoningTokens := u.reasoningTokens }

/-- The input buckets add up to the prompt. -/
theorem normalizedBuckets_input {u : Usage} {n : NormalizedUsage}
    (h : u.normalizedBuckets = .ok n) :
    n.uncachedInputTokens.toNat + n.cacheReadTokens.toNat + n.cacheWriteTokens.toNat
      = u.promptTokens.toNat := by
  obtain ⟨_, hinput, h⟩ := bind_eq_ok.mp h
  obtain ⟨_, -, h⟩ := bind_eq_ok.mp h
  obtain ⟨hfits, hle⟩ := ensure_eq_ok.mp hinput
  obtain rfl := pure_eq_ok.mp h
  have hadd : (u.cacheReadTokens + u.cacheWriteTokens).toNat
      = u.cacheReadTokens.toNat + u.cacheWriteTokens.toNat := by
    rw [UInt64.toNat_add, Nat.mod_eq_of_lt hfits]
  have hsub : (u.promptTokens - (u.cacheReadTokens + u.cacheWriteTokens)).toNat
      = u.promptTokens.toNat - (u.cacheReadTokens.toNat + u.cacheWriteTokens.toNat) := by
    rw [UInt64.toNat_sub_of_le, hadd]
    rw [UInt64.le_iff_toNat_le, hadd]
    exact hle
  dsimp only
  omega

end Usage

end BitRouter.Ai
