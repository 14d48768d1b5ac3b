import BitRouter.Tenancy.Execution

/-!
# Usage observations

The contract of `usage_evidence.rs`: a frame is one usage object an execution
has observed, in order and as it was, and names the attempt it belongs to. The
frames are bounded in number, of an execution and of an attempt.
-/

namespace BitRouter.Tenancy

open Registry (Value)

namespace UsageEvidence

/-- Bound on the frames of an execution. -/
def maxFrames : ℕ := 512

/-- Bound on the frames of an attempt. -/
def maxAttemptFrames : ℕ := 128

/-- The wire protocol of an observed usage object. -/
inductive Protocol
  | chatCompletions
  | responses
  | messages
  | decisions
  deriving DecidableEq, Repr

/-- Where a usage object was found. -/
inductive Source
  | json
  | httpError
  | chatChunk
  | responseTerminal
  | messageStart
  | messageDelta
  deriving DecidableEq, Repr

inductive Semantics
  | snapshot
  | delta
  | unknown
  deriving DecidableEq, Repr

inductive Dimension
  | inputTokens
  | outputTokens
  | totalTokens
  | cacheReadTokens
  | cacheWriteTokens
  | reasoningTokens
  | webSearchRequests
  | inputAudioTokens
  | outputAudioTokens
  | inputImageTokens
  | outputImageTokens
  | cacheWriteFiveMinuteTokens
  | cacheWriteOneHourTokens
  deriving DecidableEq, Repr

/-- When an estimate was made. -/
inductive EstimateTrigger
  | completed
  | disconnected
  deriving DecidableEq, Repr

/-- An estimate of a stream. Its algorithm and coverage have one value. -/
structure Estimate where
  version : ℕ
  charactersPerToken : ℕ
  trigger : EstimateTrigger
  promptCharacters : ℕ
  outputCharacters : ℕ
  inputTokens : ℕ
  outputTokens : ℕ
  deriving DecidableEq, Repr

/-- One field of an observed usage object; a malformed one has no value. -/
structure Quantity where
  dimension : Dimension
  value : Option ℕ
  deriving DecidableEq, Repr

/-- **One observed usage object.** -/
structure Frame where
  sequence : ℕ
  attemptId : AttemptId
  protocol : Protocol
  source : Source
  semantics : Semantics
  quantities : List Quantity
  unsupported : Bool
  invalid : Bool
  deriving DecidableEq

/-! ## Documents -/

def Protocol.name : Protocol → String
  | chatCompletions => "chat_completions"
  | responses => "responses"
  | messages => "messages"
  | decisions => "decisions"

def Source.name : Source → String
  | json => "json"
  | httpError => "http_error"
  | chatChunk => "chat_chunk"
  | responseTerminal => "response_terminal"
  | messageStart => "message_start"
  | messageDelta => "message_delta"

def Semantics.name : Semantics → String
  | snapshot => "snapshot"
  | delta => "delta"
  | unknown => "unknown"

def Dimension.name : Dimension → String
  | inputTokens => "input_tokens"
  | outputTokens => "output_tokens"
  | totalTokens => "total_tokens"
  | cacheReadTokens => "cache_read_tokens"
  | cacheWriteTokens => "cache_write_tokens"
  | reasoningTokens => "reasoning_tokens"
  | webSearchRequests => "web_search_requests"
  | inputAudioTokens => "input_audio_tokens"
  | outputAudioTokens => "output_audio_tokens"
  | inputImageTokens => "input_image_tokens"
  | outputImageTokens => "output_image_tokens"
  | cacheWriteFiveMinuteTokens => "cache_write_five_minute_tokens"
  | cacheWriteOneHourTokens => "cache_write_one_hour_tokens"

def Quantity.toJson (q : Quantity) : Value :=
  .object [("dimension", .string q.dimension.name), ("value", nullable count q.value)]

def Frame.toJson (f : Frame) : Value :=
  .object [("sequence", count f.sequence), ("attempt_id", f.attemptId.toJson),
    ("protocol", .string f.protocol.name), ("source", .string f.source.name),
    ("semantics", .string f.semantics.name),
    ("quantities", .array (f.quantities.map Quantity.toJson)), ("unsupported", .bool f.unsupported),
    ("invalid", .bool f.invalid)]

/-! ## Validation -/

def Estimate.validate (e : Estimate) : Validation :=
  require (e.version = 1 ∧ e.charactersPerToken = 4 ∧ e.promptCharacters ≤ maxInteger
      ∧ e.outputCharacters ≤ maxInteger ∧ e.inputTokens = (e.promptCharacters + 3) / 4
      ∧ e.outputTokens = (e.outputCharacters + 3) / 4) "stream estimator evidence"

def validateEstimate : Option Estimate → Validation
  | some estimate => estimate.validate
  | none => .ok ()

end UsageEvidence

end BitRouter.Tenancy
