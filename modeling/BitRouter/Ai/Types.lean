import BitRouter.Ai.Usage

/-!
# Prompts, content and stream parts

The canonical types of `types.rs` that the server-side tool loop works on. A
turn of a model is a list of content blocks or, when it streams, a list of
parts. The kinds the loop only forwards – reasoning, files, sources, block
markers – are one constructor each, which carries the block or part as it is
(`PassiveContent`, `PassivePart`).
-/

namespace BitRouter.Ai

open Registry (Value)

/-- The protocol of a wire. -/
inductive ApiProtocol
  | chatCompletions
  | messages
  | responses
  | decisions
  | custom (name : String)
  deriving DecidableEq, Repr

/-- Namespaced metadata of one part. -/
abbrev ProviderMetadata := List (String × Value)

/-- `BTreeMap::extend`. -/
def ProviderMetadata.extend (m m' : ProviderMetadata) : ProviderMetadata :=
  m'.foldl (fun m e => IndexMap.insert m e.1 e.2) m

/-- The typed body of a tool result. -/
inductive ToolResultOutput
  | text (value : String)
  | json (value : Value)
  | errorText (value : String)
  | errorJson (value : Value)
  | content (value : List Value)
  | executionDenied (reason : Option String)

/-- Source-native reasoning output: a completed Responses item. -/
structure NativeReasoning where
  item : Value

/-- The payload of a file. -/
inductive DataContent
  | base64 (data : String)
  | url (url : String)
  deriving DecidableEq, Repr

/-- A citation of a reply. -/
inductive Source
  | url (id url : String) (title : Option String)
  | document (id mediaType title : String) (filename : Option String)
  deriving DecidableEq, Repr

/-- A block the tool loop only forwards. -/
inductive PassiveContent
  | reasoning (text : String) (providerMetadata : ProviderMetadata)
      (native : Option NativeReasoning)
  | file (mediaType : String) (data : DataContent) (filename : Option String)
      (providerMetadata : ProviderMetadata)
  | source (source : Source) (providerMetadata : ProviderMetadata)
  /-- A request or an answer of the approval handshake, unread. -/
  | approval (block : Value)

/-- One block of a message or of a model's reply. -/
inductive Content
  | text (text : String) (providerMetadata : ProviderMetadata)
  | toolCall (id name arguments : String) (providerExecuted dynamic : Bool)
      (providerMetadata : ProviderMetadata)
  | toolResult (callId : String) (toolName : Option String) (output : ToolResultOutput)
      (dynamic : Bool) (providerMetadata : ProviderMetadata)
  /-- A block of any other kind. -/
  | other (block : PassiveContent)

inductive Role
  | system
  | user
  | assistant
  | tool
  deriving DecidableEq, Repr

structure Message where
  role : Role
  content : List Content

/-- A tool declaration, with the rest of its definition. -/
inductive Tool
  | function (name : String) (definition : Value)
  | providerDefined (id name : String) (definition : Value)

def Tool.name : Tool → String
  | function name _ => name
  | providerDefined _ name _ => name

inductive ToolChoice
  | auto
  | required
  | none
  | tool (name : String)
  deriving DecidableEq, Repr

/-- A generation request: what the loop reads and extends, and the rest. -/
structure Prompt where
  messages : List Message := []
  tools : List Tool := []
  toolChoice : Option ToolChoice := none
  rest : Value := .null

inductive FinishReason
  | stop
  | length
  | toolCalls
  | contentFilter
  | other (reason : String)
  | error (message : String)
  deriving DecidableEq, Repr

/-- The reply of one upstream turn, with the fields the loop leaves alone. -/
structure GenerateResult where
  content : List Content
  usage : Option Usage := none
  finishReason : Option FinishReason := none
  rest : Value := .null

/-- Which side executed a server tool. -/
inductive ServerToolKind
  | router
  | provider
  deriving DecidableEq, Repr

inductive ServerToolStatus
  | ok
  | error
  | denied
  | timeout
  deriving DecidableEq, Repr

/-- The record of one server-tool call of a request. -/
structure ServerToolCall where
  name : String
  kind : ServerToolKind
  callId : Option String
  status : ServerToolStatus
  resultCount : ℕ
  deriving DecidableEq, Repr

structure ResponseCompletion where
  id : String
  sourceProtocol : ApiProtocol
  status : String
  responseOutputCommitment : Option String
  deriving DecidableEq, Repr

/-- The lane of a reasoning delta. -/
inductive ReasoningTextKind
  | summary
  | text
  deriving DecidableEq, Repr

/-- A part the tool loop only forwards. -/
inductive PassivePart
  | textStart (id : String)
  | textEnd (id : String)
  | reasoningStart (id : String) (sourceProtocol : Option ApiProtocol)
  | reasoningDelta (text : String) (sourceKind : Option ReasoningTextKind)
  | reasoningEnd (id : String) (signature : Option String) (native : Option NativeReasoning)
  | file (mediaType : String) (data : DataContent)
  | source (source : Source)
  | responseStarted (id : String) (sourceProtocol : ApiProtocol)

/-- One part of a streamed reply. -/
inductive StreamPart
  | textDelta (text : String)
  | toolCallDelta (id : String) (name : Option String) (arguments : String)
      (providerMetadata : ProviderMetadata)
  | serverToolCall (id name arguments : String) (serverName : Option String) (dynamic : Bool)
  | serverToolResult (callId : String) (toolName : Option String) (output : ToolResultOutput)
      (dynamic : Bool)
  | usage (usage : Usage)
  | finish (reason : FinishReason)
  | responseCompleted (completion : ResponseCompletion) (usage : Option Usage)
  /-- A part of any other kind. -/
  | other (part : PassivePart)

/-- Whether a part ends the stream. -/
def StreamPart.isTerminal : StreamPart → Bool
  | finish _ => true
  | responseCompleted _ _ => true
  | _ => false

inductive BitrouterError
  | internal (message : String)
  | other (text : String)
  deriving DecidableEq, Repr

def BitrouterError.display : BitrouterError → String
  | internal message => "internal error: " ++ message
  | other text => text

/-! ## Sums over turns -/

/-- The weaker of two origins. -/
def combinedUsageOrigin : UsageOrigin → UsageOrigin → UsageOrigin
  | .unknown, _ => .unknown
  | _, .unknown => .unknown
  | .estimated, _ => .estimated
  | _, .estimated => .estimated
  | .providerReported, .providerReported => .providerReported
  | .authoritativeReceipt, .authoritativeReceipt => .authoritativeReceipt
  | _, _ => .unknown

/-- `u64::saturating_add`. -/
def saturatingAdd (a b : UInt64) : UInt64 :=
  if a.toNat + b.toNat < 2 ^ 64 then a + b else UInt64.ofNat (2 ^ 64 - 1)

/-- Whether nothing has been added to a total. -/
def Usage.isEmpty (u : Usage) : Bool :=
  u.promptTokens = 0 && u.completionTokens = 0 && u.reasoningTokens = 0 && u.cacheReadTokens = 0
    && u.cacheWriteTokens = 0 && u.webSearchCount = 0 && u.origin = .unknown && u.raw.isNone

/-- The provider usage objects of two turns, as fragments of one. -/
def combinedRaw (total add : Option Value) : Option Value :=
  match add with
  | none => total
  | some raw =>
    let fragments := match total with
      | some existing =>
        ((existing.get "provider_usage_fragments").bind Value.asArray).getD [existing]
      | none => []
    some (.object [("provider_usage_fragments", .array (fragments ++ [raw]))])

/-- Add the usage of one turn to the running total. -/
def addUsage (total add : Usage) : Usage where
  promptTokens := saturatingAdd total.promptTokens add.promptTokens
  completionTokens := saturatingAdd total.completionTokens add.completionTokens
  reasoningTokens := saturatingAdd total.reasoningTokens add.reasoningTokens
  cacheReadTokens := saturatingAdd total.cacheReadTokens add.cacheReadTokens
  cacheWriteTokens := saturatingAdd total.cacheWriteTokens add.cacheWriteTokens
  webSearchCount := saturatingAdd total.webSearchCount add.webSearchCount
  origin := if total.isEmpty then add.origin else combinedUsageOrigin total.origin add.origin
  raw := if total.isEmpty then add.raw else combinedRaw total.raw add.raw

end BitRouter.Ai
