import BitRouter.Data.StrMap
import BitRouter.Metering.Tariff

/-!
# Reconciliation of settled requests

`metering/store.rs` and `metering/reconciliation.rs`: a settled request whose
provider has receipts is pending until an authoritative receipt is applied. A loop
fetches the receipts of a batch of requests, each a bounded number of times, and
the bound is kept in the row. Beside the loop the ordinary settlement may write
any row at any time (`recordRequest`): it refreshes the usage and the charge of a
row that exists, and leaves its reconciliation columns.

Each operation of the store is atomic. Between two of them anything may be
written, and any of them may fail.
-/

namespace BitRouter.Metering

open Ai

/-! ## Receipts -/

/-- What a receipt says of a charge. -/
inductive SettlementState where
  | pending
  | computed
  | notCharged
  | unknown
deriving DecidableEq, Repr

/-- The tokens of a receipt. -/
structure SettlementUsage where
  uncachedInputTokens : ℤ
  cacheReadTokens : ℤ
  cacheWriteTokens : ℤ
  outputTokens : ℤ
  reasoningTokens : ℤ
deriving DecidableEq, Repr

/-- A receipt of the upstream. -/
structure SettlementReceipt where
  requestId : String
  state : SettlementState
  modelId : Option String
  providerId : Option String
  usage : SettlementUsage
  finalChargeMicroUsd : Option ℤ
deriving DecidableEq, Repr

/-- A configured price. -/
structure UsagePriceOverride where
  providerId : String
  modelId : String
  inputMicroUsdPerToken : Float
  cacheReadMicroUsdPerToken : Option Float
  cacheWriteMicroUsdPerToken : Option Float
  outputMicroUsdPerToken : Float

/-- The digests that name prices and receipts. -/
structure Billing where
  pricingVersion : ModelPricing → String
  overrideVersion : String → String → String
  receiptVersion : SettlementReceipt → String

/-- A 64-bit count that was reported as a signed one. -/
def tokens (value : ℤ) (bucket : String) : Except String UInt64 := do
  ensure (0 ≤ value ∧ value ≤ 9223372036854775807) s!"authoritative receipt has negative {bucket}"
  return UInt64.ofNat value.toNat

def checkedAdd (a b : UInt64) : Option UInt64 :=
  if a.toNat + b.toNat < 18446744073709551616 then some (a + b) else none

/-- **The usage of a receipt**: inclusive totals of its disjoint buckets. -/
def authoritativeUsage (receipt : SettlementReceipt) : Except String Usage := do
  let uncached ← tokens receipt.usage.uncachedInputTokens "uncached_input_tokens"
  let cacheRead ← tokens receipt.usage.cacheReadTokens "cache_read_tokens"
  let cacheWrite ← tokens receipt.usage.cacheWriteTokens "cache_write_tokens"
  let output ← tokens receipt.usage.outputTokens "output_tokens"
  let reasoning ← tokens receipt.usage.reasoningTokens "reasoning_tokens"
  let promptTokens ← orFail ((checkedAdd uncached cacheRead).bind (checkedAdd · cacheWrite))
    "authoritative input token overflow"
  let completionTokens ← orFail (checkedAdd output reasoning) "authoritative output token overflow"
  ensure (promptTokens.toNat ≤ 9223372036854775807
      ∧ completionTokens.toNat ≤ 9223372036854775807)
    "authoritative token total exceeds local storage range"
  return {
    promptTokens, completionTokens, reasoningTokens := reasoning, cacheReadTokens := cacheRead
    cacheWriteTokens := cacheWrite, origin := .authoritativeReceipt }

def overrideChargeEvidence (B : Billing) (usage : Usage) (pricing : ModelPricing)
    (admitted : Option FrozenTariff) : ChargeEvidence FrozenTariff :=
  let evidence : ChargeEvidence FrozenTariff :=
    if admitted.any (·.protocol = .decisions)
        ∧ (usage.cacheReadTokens ≠ 0 ∨ usage.cacheWriteTokens ≠ 0) then
      unavailableChargeEvidence usage "decisions_cache_billing_unverified"
    else calculateChargeEvidence usage pricing .override (B.pricingVersion pricing)
  match admitted with
  | none => evidence
  | some admitted => { evidence with
      pricingVersion := B.overrideVersion admitted.pricingVersion evidence.pricingVersion
      tariffSnapshot := some admitted }

/-! ## Rows -/

/-- Where a row stands. -/
inductive ReconciliationStatus where
  | notApplicable
  | pending
  | computed
  | notCharged
  | unknown
deriving DecidableEq, Repr

/-- No receipt is applied any more. -/
def ReconciliationStatus.Settled (status : ReconciliationStatus) : Prop :=
  status = .computed ∨ status = .notCharged

instance instDecidableSettled (status : ReconciliationStatus) : Decidable status.Settled :=
  inferInstanceAs (Decidable (_ ∨ _))

/-- The token counters of a row. -/
structure TokenColumns where
  promptTokens : ℤ
  completionTokens : ℤ
  reasoningTokens : ℤ
  cacheReadTokens : ℤ
  cacheWriteTokens : ℤ
  uncachedInputTokens : ℤ
  outputTokens : ℤ
deriving DecidableEq, Repr

/-- What a settlement records of the charge. -/
structure ChargeColumns where
  tokens : TokenColumns
  usageOrigin : UsageOrigin
  chargeStatus : ChargeStatus
  chargeEvidence : Option (ChargeEvidence FrozenTariff)
  estimatedChargeMicroUsd : ℤ

/-- The row of a request. -/
structure RequestRow where
  providerId : String
  modelId : String
  charge : ChargeColumns
  reconciliationStatus : ReconciliationStatus
  reconciliationAttempts : ℕ
  reconciliationLastError : Option String
  authoritativeReceipt : Option SettlementReceipt

/-- What the ordinary settlement writes. -/
structure RequestMetric where
  requestId : String
  providerId : String
  modelId : String
  charge : ChargeColumns
  reconciliationStatus : ReconciliationStatus

abbrev Rows : Type := StrMap RequestRow

/-- A 64-bit count in a signed column. -/
def asI64 (n : UInt64) : ℤ := n.toInt64.toInt

def tokenColumns (usage : Usage) (normalized : NormalizedUsage) : TokenColumns where
  promptTokens := asI64 usage.promptTokens
  completionTokens := asI64 usage.completionTokens
  reasoningTokens := asI64 usage.reasoningTokens
  cacheReadTokens := asI64 usage.cacheReadTokens
  cacheWriteTokens := asI64 usage.cacheWriteTokens
  uncachedInputTokens := asI64 normalized.uncachedInputTokens
  outputTokens := asI64 normalized.outputTokens

/-! ## Operations of the store -/

section Store

variable (rows : Rows) (requestId : String)

def loadRow : Except String RequestRow :=
  orFail rows[requestId]? s!"reconciliation request not found: {requestId}"

/-- Increment the durable counter of attempts. -/
def startReconciliationAttempt : Except String (Rows × ℕ) := do
  let row ← loadRow rows requestId
  ensure (row.reconciliationStatus = .pending) s!"reconciliation request {requestId} is not pending"
  let attempts := min (row.reconciliationAttempts + 1) 2147483647
  return (rows.insert requestId { row with
    reconciliationAttempts := attempts, reconciliationLastError := none }, attempts)

/-- A row may be tried again. -/
def reopenUnknownReconciliation (maxAttempts : ℕ) : Except String (Rows × Bool) := do
  let row ← loadRow rows requestId
  if row.reconciliationStatus ≠ .unknown ∨ maxAttempts ≤ row.reconciliationAttempts then
    return (rows, false)
  else
    return (rows.insert requestId { row with reconciliationStatus := .pending }, true)

def truncateError (error : String) : String := String.ofList (error.toList.take 512)

/-- An attempt that failed. -/
def recordReconciliationError (error : String) : Except String Rows := do
  let row ← loadRow rows requestId
  return rows.insert requestId { row with reconciliationLastError := some (truncateError error) }

/-- A row is given up. -/
def exhaustReconciliation (reason : String) : Except String Rows := do
  let row ← loadRow rows requestId
  if row.reconciliationStatus ≠ .pending then return rows
  else
    return rows.insert requestId { row with
      reconciliationStatus := .unknown
      charge := { row.charge with chargeStatus := .unknown, estimatedChargeMicroUsd := 0 }
      reconciliationLastError := some (truncateError reason) }

end Store

/-- The tariff that a row was admitted under. -/
def storedTariff (row : RequestRow) : Option FrozenTariff :=
  row.charge.chargeEvidence.bind (·.tariffSnapshot)

/-- A row whose receipt has no usable evidence. -/
def persistUnknownReconciliation (row : RequestRow) (usage : Usage) (receipt : SettlementReceipt)
    (reason : String) : RequestRow :=
  let unavailable : ChargeEvidence FrozenTariff := unavailableChargeEvidence usage reason
  let evidence := { unavailable with tariffSnapshot := storedTariff row }
  { row with
    charge := {
      tokens := tokenColumns usage evidence.normalizedUsage
      usageOrigin := .authoritativeReceipt
      chargeStatus := .unknown
      chargeEvidence := some evidence
      estimatedChargeMicroUsd := 0 }
    reconciliationStatus := .unknown
    reconciliationLastError := some reason
    authoritativeReceipt := some receipt }

/-- What a receipt writes. -/
def persistAuthoritative (row : RequestRow) (usage : Usage) (receipt : SettlementReceipt)
    (status : ReconciliationStatus) (chargeStatus : ChargeStatus)
    (evidence : ChargeEvidence FrozenTariff) (providerId modelId : String) : RequestRow where
  providerId
  modelId
  charge := {
    tokens := tokenColumns usage evidence.normalizedUsage
    usageOrigin := .authoritativeReceipt
    chargeStatus
    chargeEvidence := some { evidence with tariffSnapshot := storedTariff row }
    estimatedChargeMicroUsd := evidence.chargeMicroUsd.getD 0 }
  reconciliationStatus := status
  reconciliationAttempts := row.reconciliationAttempts
  reconciliationLastError := none
  authoritativeReceipt := some receipt

/-- The prices of a receipt's model. -/
def candidatePrices (prices : List UsagePriceOverride) (providerId modelId : String) :
    List UsagePriceOverride :=
  prices.filter fun price => price.providerId = providerId && price.modelId = modelId

def UsagePriceOverride.pricing (price : UsagePriceOverride) : ModelPricing where
  inputMicroUsdPerToken := some price.inputMicroUsdPerToken
  cacheReadMicroUsdPerToken := price.cacheReadMicroUsdPerToken
  cacheWriteMicroUsdPerToken := price.cacheWriteMicroUsdPerToken
  outputMicroUsdPerToken := some price.outputMicroUsdPerToken

/-- **The evidence that reconstructs the charge of a receipt.** -/
def matchingEvidence (B : Billing) (receipt : SettlementReceipt) (usage : Usage)
    (admitted : Option FrozenTariff) (candidates : List UsagePriceOverride) :
    List (ChargeEvidence FrozenTariff) :=
  (candidates.map fun price => overrideChargeEvidence B usage price.pricing admitted).filter
    fun evidence => evidence.status = .computed
      && evidence.chargeMicroUsd = receipt.finalChargeMicroUsd

/-- A charge taken as it is. -/
def receiptChargeEvidence (B : Billing) (receipt : SettlementReceipt) (usage : Usage) :
    Except String (ChargeEvidence FrozenTariff) := do
  let charge ← orFail receipt.finalChargeMicroUsd
    "computed authoritative receipt has no final charge"
  let normalizedUsage ← usage.normalizedBuckets.mapError fun _ =>
    "authoritative usage normalization failed"
  return {
    exactRegistryCharge := none, tariffSnapshot := none, status := .computed
    chargeMicroUsd := some charge, normalizedUsage, effectiveRates := {}
    pricingSource := .authoritativeReceipt, pricingVersion := B.receiptVersion receipt
    unknownReason := none }

/-- A charge computed from prices. -/
def reconstructedRow (B : Billing) (row : RequestRow) (usage : Usage) (receipt : SettlementReceipt)
    (prices : List UsagePriceOverride) (providerId modelId : String) : RequestRow :=
  let candidates := candidatePrices prices providerId modelId
  if candidates = [] then
    persistUnknownReconciliation row usage receipt "authoritative_pricing_not_found"
  else
    match matchingEvidence B receipt usage (storedTariff row) candidates with
    | [] => persistUnknownReconciliation row usage receipt "authoritative_charge_mismatch"
    | evidence :: others =>
      if others.any fun candidate => candidate.pricingVersion ≠ evidence.pricingVersion then
        persistUnknownReconciliation row usage receipt "authoritative_pricing_ambiguous"
      else persistAuthoritative row usage receipt .computed .computed evidence providerId modelId

/-- The row after a receipt that is no longer pending. -/
def reconciledRow (B : Billing) (row : RequestRow) (usage : Usage) (receipt : SettlementReceipt)
    (prices : List UsagePriceOverride) (acceptReceiptCharge : Bool) : Except String RequestRow :=
  match receipt.state with
  | .pending => .ok row
  | .notCharged =>
    if usage.promptTokens ≠ 0 ∨ usage.completionTokens ≠ 0 then
      .ok (persistUnknownReconciliation row usage receipt "not_charged_receipt_has_usage")
    else
      let unavailable := unavailableChargeEvidence usage "authoritative_not_charged"
      .ok (persistAuthoritative row usage receipt .notCharged .notCharged
        { unavailable with status := .notCharged } (receipt.providerId.getD row.providerId)
        (receipt.modelId.getD row.modelId))
  | .unknown =>
    .ok (persistUnknownReconciliation row usage receipt "authoritative_settlement_unknown")
  | .computed =>
    match receipt.providerId, receipt.modelId with
    | none, _ =>
      .ok (persistUnknownReconciliation row usage receipt "authoritative_provider_missing")
    | some _, none =>
      .ok (persistUnknownReconciliation row usage receipt "authoritative_model_missing")
    | some providerId, some modelId =>
      if acceptReceiptCharge then
        (receiptChargeEvidence B receipt usage).map fun evidence =>
          persistAuthoritative row usage receipt .computed .computed evidence providerId modelId
      else .ok (reconstructedRow B row usage receipt prices providerId modelId)

/-- **Apply a receipt to a pending row.** -/
def applyAuthoritativeReceipt (B : Billing) (rows : Rows) (receipt : SettlementReceipt)
    (prices : List UsagePriceOverride) (acceptReceiptCharge : Bool) :
    Except String (Rows × ReconciliationStatus) := do
  let row ← loadRow rows receipt.requestId
  ensure (row.reconciliationStatus = .pending)
    s!"reconciliation request {receipt.requestId} is already terminal"
  let usage ← authoritativeUsage receipt
  let row' ← reconciledRow B row usage receipt prices acceptReceiptCharge
  return (rows.insert receipt.requestId row', row'.reconciliationStatus)

/-- **The ordinary settlement.** A row that exists keeps its reconciliation columns. -/
def recordRequest (rows : Rows) (record : RequestMetric) : Rows :=
  match rows[record.requestId]? with
  | none => rows.insert record.requestId {
      providerId := record.providerId, modelId := record.modelId, charge := record.charge
      reconciliationStatus := record.reconciliationStatus, reconciliationAttempts := 0
      reconciliationLastError := none, authoritativeReceipt := none }
  | some row => rows.insert record.requestId { row with
      providerId := record.providerId, modelId := record.modelId, charge := record.charge }

/-! ## The loop -/

structure ReconciliationRecord where
  requestId : String
  status : ReconciliationStatus
  attempts : ℕ
deriving DecidableEq, Repr

def reconciliationRecords (rows : Rows) (requestIds : List String) : List ReconciliationRecord :=
  (rows.toList.filter fun entry => entry.1 ∈ requestIds).map fun entry =>
    ⟨entry.1, entry.2.reconciliationStatus, entry.2.reconciliationAttempts⟩

/-- How many rows came out how. -/
structure ReconciliationSummary where
  requested : ℕ
  computed : ℕ
  notCharged : ℕ
  unknown : ℕ
  attempts : ℕ
deriving DecidableEq, Repr

def summarize (records : List ReconciliationRecord) : ReconciliationSummary where
  requested := records.length
  computed := (records.filter (·.status = .computed)).length
  notCharged := (records.filter (·.status = .notCharged)).length
  unknown := (records.filter (·.status = .unknown)).length
  attempts := (records.map (·.attempts)).sum

/-- What a loop is called with. -/
structure Batch where
  requestIds : List String
  prices : List UsagePriceOverride
  acceptReceiptCharge : Bool

/-- Where a loop is. -/
inductive Stage where
  | reading
  /-- The records of this pass that are left, and whether the pass has made progress. -/
  | working (records : List ReconciliationRecord) (progressed : Bool)
  /-- A receipt is being fetched. -/
  | fetching (requestId : String) (attempt : ℕ) (records : List ReconciliationRecord)
  /-- The last fetch has failed, and its error is recorded. -/
  | exhausting (requestId : String) (records : List ReconciliationRecord)
  | ended (result : Except String ReconciliationSummary)

/-- The store, the loop that runs or has run last, and how often each row was
fetched. -/
structure World where
  rows : Rows
  loop : Option (Batch × Stage)
  fetches : String → ℕ

/-- What may happen next. -/
inductive Event where
  | begin (batch : Batch)
  /-- The next operation of the loop. -/
  | advance
  /-- An answer to a fetch, and the operation that follows it. -/
  | receive (answer : Except String SettlementReceipt)
  /-- An operation of the loop fails. -/
  | fail (error : String)
  | write (record : RequestMetric)

/-- The checks before the loop. -/
def beginResult (maxAttempts : ℕ) (batch : Batch) : Except String Unit := do
  ensure (batch.requestIds ≠ []) "reconciliation requires at least one request id"
  ensure (maxAttempts ≠ 0) "reconciliation max attempts must be positive"
  ensure batch.requestIds.Nodup "reconciliation request ids must be unique"

/-- The stage after an operation. -/
def stageOf {α : Type} (result : Except String α) (next : α → Stage) : Stage :=
  match result with
  | .ok value => next value
  | .error error => .ended (.error error)

namespace World

variable (B : Billing) (maxAttempts : ℕ)

/-- The rows are changed, or it fails. -/
def after (w : World) (batch : Batch) (result : Except String Rows) (next : Stage) : World :=
  match result with
  | .ok rows => { w with rows, loop := some (batch, next) }
  | .error error => { w with loop := some (batch, .ended (.error error)) }

/-- One record of a pass. -/
def work (w : World) (batch : Batch) (record : ReconciliationRecord)
    (records : List ReconciliationRecord) (progressed : Bool) : World :=
  match record.status with
  | .pending =>
    if maxAttempts ≤ record.attempts then
      w.after batch (exhaustReconciliation w.rows record.requestId "attempt_budget_exhausted")
        (.working records true)
    else
      match startReconciliationAttempt w.rows record.requestId with
      | .ok (rows, attempt) => {
          rows, loop := some (batch, .fetching record.requestId attempt records)
          fetches := Function.update w.fetches record.requestId (w.fetches record.requestId + 1) }
      | .error error => { w with loop := some (batch, .ended (.error error)) }
  | .computed | .notCharged => { w with loop := some (batch, .working records progressed) }
  | .unknown =>
    match reopenUnknownReconciliation w.rows record.requestId maxAttempts with
    | .ok (rows, reopened) =>
      { w with rows, loop := some (batch, .working records (progressed || reopened)) }
    | .error error => { w with loop := some (batch, .ended (.error error)) }
  | .notApplicable => { w with loop := some (batch, .ended (.error
      s!"request {record.requestId} does not require authoritative reconciliation")) }

/-- The start of a pass. -/
def read (w : World) (batch : Batch) : World :=
  let records := reconciliationRecords w.rows batch.requestIds
  if records.length ≠ batch.requestIds.length then
    { w with loop := some (batch, .ended (.error "reconciliation rows missing for request ids")) }
  else { w with loop := some (batch, .working records false) }

/-- The end of a pass. -/
def check (w : World) (batch : Batch) (progressed : Bool) : World :=
  let records := reconciliationRecords w.rows batch.requestIds
  if records.all (·.status ≠ .pending) then
    { w with loop := some (batch, .ended (.ok (summarize records))) }
  else if progressed then { w with loop := some (batch, .reading) }
  else { w with loop := some (batch, .ended (.error
    "reconciliation made no progress while rows remained pending")) }

/-- An answer to a fetch. -/
def answered (w : World) (batch : Batch) (requestId : String) (attempt : ℕ)
    (records : List ReconciliationRecord) (answer : Except String SettlementReceipt) : World :=
  let answer := answer.bind fun receipt =>
    if receipt.requestId = requestId then .ok receipt
    else .error "settlement receipt identity mismatch"
  match answer with
  | .ok receipt =>
    if receipt.state = .pending then
      if maxAttempts ≤ attempt then
        w.after batch (exhaustReconciliation w.rows requestId "authoritative_receipt_still_pending")
          (.working records true)
      else { w with loop := some (batch, .working records true) }
    else
      w.after batch ((applyAuthoritativeReceipt B w.rows receipt batch.prices
        batch.acceptReceiptCharge).map Prod.fst) (.working records true)
  | .error error =>
    w.after batch (recordReconciliationError w.rows requestId error)
      (if maxAttempts ≤ attempt then .exhausting requestId records else .working records true)

/-- The next operation of the loop. -/
def advance (w : World) (batch : Batch) : Stage → World
  | .reading => w.read batch
  | .working [] progressed => w.check batch progressed
  | .working (record :: records) progressed => w.work maxAttempts batch record records progressed
  | .exhausting requestId records =>
    w.after batch (exhaustReconciliation w.rows requestId "receipt_fetch_attempts_exhausted")
      (.working records true)
  | .fetching requestId attempt records =>
    { w with loop := some (batch, .fetching requestId attempt records) }
  | .ended result => { w with loop := some (batch, .ended result) }

/-- **One event.** What does not apply changes nothing. -/
def step (w : World) : Event → World
  | .begin batch =>
    match w.loop with
    | none | some (_, .ended _) =>
      { w with loop := some (batch, stageOf (beginResult maxAttempts batch) fun _ => .reading) }
    | some _ => w
  | .advance =>
    match w.loop with
    | none => w
    | some (batch, stage) => w.advance maxAttempts batch stage
  | .receive answer =>
    match w.loop with
    | some (batch, .fetching requestId attempt records) =>
      w.answered B maxAttempts batch requestId attempt records answer
    | _ => w
  | .fail error =>
    match w.loop with
    | none | some (_, .ended _) => w
    | some (batch, _) => { w with loop := some (batch, .ended (.error error)) }
  | .write record => { w with rows := recordRequest w.rows record }

end World

end BitRouter.Metering
