import BitRouter.Data.StrMap
import BitRouter.Registry.Normalize

/-!
# Events of a trajectory

The ledger of an episode is a list of immutable events. An event carries
content-free evidence only: counts, categorical states and digests, each under
a namespaced key, and on a route intent a typed measurement. This module is
the event itself, the snapshot the reducer makes of a history, and what
`validateEvent` demands of one event on its own.

Three things are computed outside this repository's own logic and enter as the
fields of a `Ledger`: the SHA-256 of a canonical JSON text, the length of that
text, and the instant an RFC 3339 text names. A failure is the text of the
error.
-/

namespace BitRouter.Trajectory

open BitRouter.Registry.Mapping (isWhitespace isControl)

/-- The only event schema this program writes. -/
def trajectorySchemaVersion : ℕ := 1

/-- Bound on a `u64`. -/
def u64Bound : ℕ := 2 ^ 64

inductive HistoryCompleteness where
  | complete
  | incomplete
  | unknown
deriving DecidableEq, Repr

inductive TrajectoryEventKind where
  | requestStarted
  | routeIntentRecorded
  | requestSettled
  | guardActivated
  | episodeClosed
deriving DecidableEq, Repr

/-- A routing receipt, on settlements only. -/
structure EvidenceItem where
  evidenceId : String
  kind : String
  digest : String
  redacted : Bool
  attributes : StrMap String
deriving DecidableEq

/-- Content-free, bounded evidence attached to one immutable ledger event; `M`
is the typed measurement of a route decision. -/
structure TrajectoryEvidence (M : Type) where
  structural : StrMap ℕ
  categorical : StrMap String
  digests : StrMap String
  routeMeasurement : Option M
  routingEvidence : List EvidenceItem
deriving DecidableEq

structure TrajectoryEvent (M : Type) where
  schemaVersion : ℕ
  eventId : String
  ownerUserId : String
  episodeId : String
  requestId : Option String
  sequence : ℕ
  kind : TrajectoryEventKind
  evidence : TrajectoryEvidence M
  capturedAt : String
  contentDigest : String
deriving DecidableEq

structure TrajectoryHealth where
  completeness : HistoryCompleteness
  requestCount : ℕ
  settledRequestCount : ℕ
  unsettledRequestCount : ℕ
  elapsedMs : ℕ
  latestProjection : Option String
  sameProjectionStreak : ℕ
  sameSelectedTierStreak : ℕ
  consecutiveUnprotectedRequests : ℕ
  recoveryCount : ℕ
  requestsSinceRecovery : Option ℕ
  contextGrowthPpm : Option ℕ
  totalTokens : Option ℕ
  settledCostMicroUsd : Option ℕ
deriving DecidableEq, Repr

structure TrajectorySnapshot where
  episodeId : String
  throughSequence : ℕ
  health : TrajectoryHealth
  activeHoldRemaining : ℕ
  evidenceDigest : String
deriving DecidableEq, Repr

/-- **What the ledger takes from outside**: the digest and the length of a
canonical encoding, the instant (in nanoseconds) of a timestamp, and the check
of a typed measurement. -/
structure Ledger (M : Type) where
  eventDigest : TrajectoryEvent M → String
  snapshotDigest : TrajectorySnapshot → String
  encodedBytes : TrajectoryEvent M → ℕ
  parseFromRfc3339 : String → Option ℤ
  validateRouteMeasurement : M → Except String Unit

variable {M : Type}

def TrajectoryEvent.semanticDigest (ledger : Ledger M) (event : TrajectoryEvent M) : String :=
  ledger.eventDigest { event with contentDigest := "" }

def TrajectorySnapshot.semanticDigest (ledger : Ledger M) (snapshot : TrajectorySnapshot) :
    String :=
  ledger.snapshotDigest { snapshot with evidenceDigest := "" }

/-- An event under its own digest. -/
def TrajectoryEvent.signed (ledger : Ledger M) (event : TrajectoryEvent M) : TrajectoryEvent M :=
  { event with contentDigest := event.semanticDigest ledger }

/-! ## Texts -/

/-- The bytes of a text after `str::to_ascii_lowercase`. -/
def lowered (value : String) : List ℕ :=
  (bytes value).map fun n => if 65 ≤ n ∧ n ≤ 90 then n + 32 else n

/-- `str::starts_with`. -/
def startsWith (value part : String) : Bool := (bytes part).isPrefixOf (bytes value)

/-- `str::contains`. -/
def contains (value part : List ℕ) : Bool :=
  match value with
  | [] => part.isEmpty
  | n :: rest => part.isPrefixOf (n :: rest) || contains rest part

/-- `value.trim().is_empty()`. -/
def blank (value : String) : Bool := value.toList.all isWhitespace

/-- `str::split_once`. -/
def splitOnce (sep : Char) (value : String) : Option (String × String) :=
  match value.toList.dropWhile (· ≠ sep) with
  | [] => none
  | _ :: rest => some (String.ofList (value.toList.takeWhile (· ≠ sep)), String.ofList rest)

/-- A digit or one of the first six small letters. -/
def isLowerHexDigit (n : ℕ) : Bool := (48 ≤ n && n ≤ 57) || (97 ≤ n && n ≤ 102)

def isLowerHexDigest (value : List ℕ) : Bool := value.length = 64 && value.all isLowerHexDigit

/-- A non-empty bounded text: `field` and `what` make the failure. -/
def validateBounded (value field what : String) : Except String Unit :=
  ensure (blank value = false ∧ value.utf8ByteSize ≤ 512 ∧ value.toList.any isControl = false)
    s!"{field} must be a non-empty bounded {what}"

def validateIdentifier (value field : String) : Except String Unit :=
  validateBounded value field "identifier"

def validateKeyedComponent (value field : String) : Except String Unit :=
  ensure (value ≠ "" ∧ value.utf8ByteSize ≤ 128
      ∧ value.toList.all (fun c => c.isAlphanum || c = '_' || c = '-') = true)
    s!"{field} must be a bounded token"

def validateDigest (value field : String) : Except String Unit := do
  ensure (startsWith value "sha256:") s!"{field} must be a sha256 digest"
  ensure (isLowerHexDigest ((bytes value).drop 7))
    s!"{field} must contain 64 lowercase hexadecimal digits"

/-- The key id of a keyed digest, where the text is one. -/
def keyedDigestKeyId (value : String) : Except String String := do
  let (algorithm, remainder) ← orFail (splitOnce ':' value)
    "keyed digest must include its algorithm and key id"
  ensure (algorithm = "hmac-sha256") "keyed digest must use hmac-sha256"
  let (keyId, hexDigest) ← orFail (splitOnce ':' remainder)
    "keyed digest must include its key id and digest"
  ensure (remainder.toList.count ':' = 1) "keyed digest must contain exactly one key id"
  validateKeyedComponent keyId "keyed digest key id"
  ensure (isLowerHexDigest (bytes hexDigest))
    "keyed digest must contain 64 lowercase hexadecimal digits"
  return keyId

/-- **An already-keyed correlation token**, with the key id its text names. -/
structure KeyedDigest where
  value : String
  keyId : String
  reads : keyedDigestKeyId value = .ok keyId
deriving DecidableEq

def KeyedDigest.parse (value : String) : Except String KeyedDigest :=
  match h : keyedDigestKeyId value with
  | .ok keyId => .ok ⟨value, keyId, h⟩
  | .error e => .error e

/-! ## Checks of one event -/

/-- A small letter, a digit, or one of `.`, `_` and `-`. -/
def isAttributeChar (n : ℕ) : Bool :=
  (97 ≤ n && n ≤ 122) || (48 ≤ n && n ≤ 57) || n = 46 || n = 95 || n = 45

def validateAttributeKey (value : String) : Except String Unit :=
  ensure (value.utf8ByteSize ≤ 128 ∧ 46 ∈ bytes value ∧ (bytes value).head? ≠ some 46
      ∧ (bytes value).getLast? ≠ some 46 ∧ (bytes value).all isAttributeChar = true)
    s!"trajectory evidence attribute '{value}' must be a lowercase namespaced id"

def attributeKeyLooksSensitive (key : String) : Bool :=
  let normalized := (lowered key).map fun n => if n = 45 ∨ n = 46 then 95 else n
  (["authorization", "proxy_authorization", "x_api_key", "api_key", "access_token",
      "refresh_token", "cookie", "set_cookie", "secret"].any (bytes · = normalized))
    || (["_secret", "_api_key", "_access_token", "_refresh_token"].any fun name =>
      (bytes name).isSuffixOf normalized)

def attributeLooksSensitive (key value : String) : Bool :=
  attributeKeyLooksSensitive key || (bytes "bearer ").isPrefixOf (lowered value)
    || contains (lowered value) (bytes "brvk_") || (bytes "sk-").isPrefixOf (lowered value)
    || contains (lowered value) (bytes "-----begin private key-----")

def validateEvidenceDigest (value field : String) : Except String Unit :=
  if startsWith value "sha256:" then validateDigest value field
  else match KeyedDigest.parse value with
    | .ok _ => .ok ()
    | .error _ => .error s!"{field} must be a digest"

def validateStructuredAttributes (structural : StrMap ℕ) (categorical digests : StrMap String)
    (field : String) : Except String Unit := do
  ensure (structural.size ≤ 64 ∧ categorical.size ≤ 64 ∧ digests.size ≤ 64)
    s!"{field} has too many attributes"
  (structural.keys ++ categorical.keys ++ digests.keys).forM fun key => do
    validateAttributeKey key
    ensure (attributeKeyLooksSensitive key = false)
      s!"{field} contains credential-shaped attribute material"
  categorical.toList.forM fun (key, value) => do
    ensure (blank value = false ∧ value.utf8ByteSize ≤ 128
        ∧ value.toList.any isControl = false)
      s!"{field} categorical attribute '{key}' must be bounded"
    ensure (attributeLooksSensitive key value = false)
      s!"{field} contains credential-shaped attribute material"
  digests.toList.forM fun (key, digest) =>
    validateEvidenceDigest digest s!"{field} digest '{key}'"

def receiptAttributes : String → Option (List String)
  | "routing.assessment" => some ["decision_receipt_id", "input_digest", "contract_digest",
      "classifier_digest", "model", "requested_model", "confidence_threshold", "judgments",
      "confidence_kind", "input_tokens", "output_tokens"]
  | "routing.plan" => some ["model", "context_view", "prompt_digest", "context_strategy", "reason"]
  | _ => none

def validateReceipt (item : EvidenceItem) : Except String Unit := do
  validateIdentifier item.evidenceId "routing receipt identity"
  validateDigest item.digest "routing receipt digest"
  let allowed ← orFail (receiptAttributes item.kind) "unsupported routing receipt kind"
  ensure (item.redacted = true ∧ item.attributes.toList.all (fun (key, value) =>
      key ∈ allowed && value.utf8ByteSize ≤ 8192 && !attributeLooksSensitive key value) = true)
    "invalid bounded routing receipt attributes"

def validateEvidence (ledger : Ledger M) (evidence : TrajectoryEvidence M) :
    Except String Unit := do
  validateStructuredAttributes evidence.structural evidence.categorical evidence.digests
    "trajectory evidence"
  ensure (evidence.routingEvidence.length ≤ 2) "too many routing receipts"
  evidence.routingEvidence.forM validateReceipt
  match evidence.routeMeasurement with
  | some measurement => ledger.validateRouteMeasurement measurement
  | none => .ok ()

def validateEvent (ledger : Ledger M) (event : TrajectoryEvent M) : Except String Unit := do
  ensure (event.schemaVersion = trajectorySchemaVersion)
    "unsupported trajectory event schema version"
  validateIdentifier event.eventId "event_id"
  validateIdentifier event.ownerUserId "owner_user_id"
  validateIdentifier event.episodeId "episode_id"
  event.requestId.toList.forM fun requestId => validateIdentifier requestId "request_id"
  ensure (event.sequence ≠ 0) "event sequence must be positive"
  let _ ← orFail (ledger.parseFromRfc3339 event.capturedAt) "captured_at must be RFC3339"
  validateEvidence ledger event.evidence
  ensure (event.evidence.routeMeasurement.isNone ∨ event.kind = .routeIntentRecorded)
    "route measurement is only valid on route-intent events"
  ensure (event.evidence.routingEvidence = [] ∨ event.kind = .requestSettled)
    "routing execution evidence is only valid on settlement events"
  validateDigest event.contentDigest "content_digest"
  ensure (event.semanticDigest ledger = event.contentDigest)
    "trajectory event content_digest does not match its canonical content"

/-- `left` unless `right` says less. -/
def mergeCompleteness : HistoryCompleteness → HistoryCompleteness → HistoryCompleteness
  | .incomplete, _ => .incomplete
  | _, .incomplete => .incomplete
  | .unknown, _ => .unknown
  | _, .unknown => .unknown
  | .complete, .complete => .complete

end BitRouter.Trajectory
