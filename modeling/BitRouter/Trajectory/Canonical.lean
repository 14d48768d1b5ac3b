import BitRouter.Ai.Types
import BitRouter.Trajectory.Guard

/-!
# Canonical prompts and their digests

Two requests belong to one conversation when the history of the second
continues the prompt of the first. The ledger holds no prompt: it keeps a
keyed digest of each canonical prompt, and of each shorter prompt a request
could have continued. `canonicalTurns` splits the messages of a prompt by the
role of their blocks and joins what the protocols write apart, and
`canonicalize` digests the serialized prompt and its prefixes in one pass over
the turns.

What a block carries beside its canonical content – provider metadata, native
reasoning items, the tool name of a result – is not read, and neither is the
rest of a prompt. HMAC-SHA256 and the parser of `serde_json` are parameters.
-/

namespace BitRouter.Trajectory.Canonical

open BitRouter.Ai (Role DataContent Source)
open BitRouter.Registry (Value)

/-! ## Prompts -/

/-- One part of a multimodal tool result. -/
inductive ToolResultContentPart where
  | text (text : String)
  | media (mediaType : String) (data : DataContent)
  | fileId (mediaType : Option String) (id : String)
deriving DecidableEq, Repr

/-- What a tool returned. -/
inductive ToolResultOutput where
  | text (value : String)
  | json (value : Value)
  | errorText (value : String)
  | errorJson (value : Value)
  | content (value : List ToolResultContentPart)
  | executionDenied (reason : Option String)

/-- One block of a message. -/
inductive Content where
  | text (text : String)
  | reasoning (text : String)
  | file (mediaType : String) (data : DataContent) (filename : Option String)
  | toolCall (id name arguments : String) (providerExecuted dynamic : Bool)
  | toolResult (callId : String) (output : ToolResultOutput) (dynamic : Bool)
  | source (source : Source)
  | toolApprovalRequest (approvalId toolCallId : String)
  | toolApprovalResponse (approvalId : String) (approved : Bool) (reason : Option String)

/-- A message of a prompt. -/
structure Message where
  role : Role
  content : List Content

/-- What the canonicalizer reads of a prompt. -/
structure Prompt where
  system : Option String
  messages : List Message

/-! ## Canonical content -/

/-- `CanonicalJsonText`. -/
inductive CanonicalJsonText where
  | json (value : Value)
  | text (value : String)

inductive CanonicalToolResultPart where
  | text (text : String)
  | media (mediaType : String) (data : Value)
  | fileId (mediaType : Option String) (id : String)

/-- What is kept of a tool result. -/
inductive CanonicalToolResult where
  | text (value : String)
  | json (value : Value)
  | errorText (value : String)
  | errorJson (value : Value)
  | content (value : List CanonicalToolResultPart)
  | executionDenied (reason : Option String)

/-- What is kept of a content block. -/
inductive CanonicalContent where
  | text (text : String)
  | reasoning (text : String)
  | file (mediaType : String) (data : Value) (filename : Option String)
  | toolCall (id name : String) (arguments : CanonicalJsonText) (providerExecuted dynamic : Bool)
  | toolResult (callId : String) (output : CanonicalToolResult) (dynamic : Bool)
  | source (source : Value)
  | toolApprovalRequest (approvalId toolCallId : String)
  | toolApprovalResponse (approvalId : String) (approved : Bool) (reason : Option String)

/-- A role, and what it said. -/
structure CanonicalTurn where
  role : Role
  content : List CanonicalContent

/-- `serde_json::to_value` of the payload of a file. -/
def dataValue : DataContent → Value
  | .base64 data => .object [("kind", .string "base64"), ("data", .string data)]
  | .url url => .object [("kind", .string "url"), ("url", .string url)]

/-- A member that is left out where it is absent. -/
def optionalMember (key : String) (value : Option String) : List (String × Value) :=
  value.toList.map fun text => (key, .string text)

/-- `serde_json::to_value` of a citation. -/
def sourceValue : Source → Value
  | .url id url title =>
    .object ([("source_type", .string "url"), ("id", .string id), ("url", .string url)]
      ++ optionalMember "title" title)
  | .document id mediaType title filename =>
    .object ([("source_type", .string "document"), ("id", .string id),
      ("media_type", .string mediaType), ("title", .string title)]
      ++ optionalMember "filename" filename)

mutual

/-- `CanonicalJson::from`: the members of an object in the order of their names. -/
def canonicalJson : Value → Value
  | .array items => .array (canonicalItems items)
  | .object fields => .object (StrMap.ofPairs (canonicalFields fields)).toList
  | v => v

def canonicalItems : List Value → List Value
  | [] => []
  | v :: rest => canonicalJson v :: canonicalItems rest

def canonicalFields : List (String × Value) → List (String × Value)
  | [] => []
  | (key, v) :: rest => (key, canonicalJson v) :: canonicalFields rest

end

section Content

variable (fromStr : String → Option Value)

/-- A text that is JSON stands for its value. -/
def canonicalJsonText (value : String) : CanonicalJsonText :=
  match fromStr value with
  | some parsed => .json (canonicalJson parsed)
  | none => .text value

def canonicalToolResultPart : ToolResultContentPart → CanonicalToolResultPart
  | .text value => .text value
  | .media mediaType data => .media mediaType (dataValue data)
  | .fileId mediaType id => .fileId mediaType id

/-- A text that is JSON counts as JSON. -/
def canonicalToolResult : ToolResultOutput → CanonicalToolResult
  | .text value =>
    match canonicalJsonText fromStr value with
    | .json value => .json value
    | .text value => .text value
  | .json value => .json (canonicalJson value)
  | .errorText value =>
    match canonicalJsonText fromStr value with
    | .json value => .errorJson value
    | .text value => .errorText value
  | .errorJson value => .errorJson (canonicalJson value)
  | .content value => .content (value.map canonicalToolResultPart)
  | .executionDenied reason => .executionDenied reason

def canonicalContent : Content → CanonicalContent
  | .text value => .text value
  | .reasoning value => .reasoning value
  | .file mediaType data filename => .file mediaType (dataValue data) filename
  | .toolCall id name arguments providerExecuted dynamic =>
    .toolCall id name (canonicalJsonText fromStr arguments) providerExecuted dynamic
  | .toolResult callId output dynamic =>
    .toolResult callId (canonicalToolResult fromStr output) dynamic
  | .source citation => .source (sourceValue citation)
  | .toolApprovalRequest approvalId toolCallId => .toolApprovalRequest approvalId toolCallId
  | .toolApprovalResponse approvalId approved reason =>
    .toolApprovalResponse approvalId approved reason

end Content

/-! ## Canonical turns -/

/-- The role of a block: the protocols disagree about the message it stands in. -/
def canonicalRole (messageRole : Role) : Content → Role
  | .toolCall .. | .reasoning _ | .toolApprovalRequest .. => .assistant
  | .toolResult .. | .toolApprovalResponse .. => .tool
  | _ => messageRole

inductive ProtocolArtifactKind where
  | toolCall
  | toolResult
deriving DecidableEq, Repr

def CanonicalContent.isToolCall : CanonicalContent → Bool
  | .toolCall .. => true
  | _ => false

def CanonicalContent.isToolResult : CanonicalContent → Bool
  | .toolResult .. => true
  | _ => false

/-- Turns that hold calls or results only. -/
def protocolArtifactKind (turn : CanonicalTurn) : Option ProtocolArtifactKind :=
  if turn.content.all (·.isToolCall) then some .toolCall
  else if turn.content.all (·.isToolResult) then some .toolResult
  else none

/-- Whether a block is a text without characters. -/
def Content.isEmptyText : Content → Bool
  | .text value => value.isEmpty
  | _ => false

/-- The last turn takes more content. -/
def extendLast (turns : List CanonicalTurn) (last : CanonicalTurn)
    (content : List CanonicalContent) : List CanonicalTurn :=
  turns.dropLast ++ [{ last with content := last.content ++ content }]

/-- A block joins the turn before it within a message, if their roles agree. -/
def pushContent (turns : List CanonicalTurn) (role : Role) (content : CanonicalContent) :
    List CanonicalTurn :=
  match turns.getLast? with
  | some turn =>
    if turn.role = role then extendLast turns turn [content]
    else turns ++ [{ role, content := [content] }]
  | none => turns ++ [{ role, content := [content] }]

/-- A turn joins the turn before it, if both are tool calls or both tool results. -/
def pushTurn (turns : List CanonicalTurn) (turn : CanonicalTurn) : List CanonicalTurn :=
  let mergeArtifact :=
    turns.getLast?.bind protocolArtifactKind = protocolArtifactKind turn
      ∧ (protocolArtifactKind turn).isSome
  if mergeArtifact then
    match turns.getLast? with
    | some previous => extendLast turns previous turn.content
    | none => turns ++ [turn]
  else turns ++ [turn]

/-- The turns of one message: empty texts among other blocks are left out. -/
def messageTurns (fromStr : String → Option Value) (message : Message) : List CanonicalTurn :=
  let hasNonemptySibling := 1 < message.content.length
  message.content.foldl (fun turns content =>
    if hasNonemptySibling ∧ content.isEmptyText then turns
    else pushContent turns (canonicalRole message.role content) (canonicalContent fromStr content))
    []

/-- The turns of a prompt. -/
def canonicalTurns (fromStr : String → Option Value) (prompt : Prompt) : List CanonicalTurn :=
  prompt.messages.foldl (fun turns message => (messageTurns fromStr message).foldl pushTurn turns)
    []

/-! ## Serialization -/

/-- An optional text as JSON. -/
def optionValue (value : Option String) : Value := value.elim .null .string

def roleName : Role → String
  | .system => "system"
  | .user => "user"
  | .assistant => "assistant"
  | .tool => "tool"

def CanonicalJsonText.toValue : CanonicalJsonText → Value
  | json value => .object [("kind", .string "json"), ("value", value)]
  | text value => .object [("kind", .string "text"), ("value", .string value)]

def CanonicalToolResultPart.toValue : CanonicalToolResultPart → Value
  | text value => .object [("kind", .string "text"), ("text", .string value)]
  | media mediaType data =>
    .object [("kind", .string "media"), ("media_type", .string mediaType), ("data", data)]
  | fileId mediaType id =>
    .object [("kind", .string "file_id"), ("media_type", optionValue mediaType),
      ("id", .string id)]

def CanonicalToolResult.toValue : CanonicalToolResult → Value
  | text value => .object [("kind", .string "text"), ("value", .string value)]
  | json value => .object [("kind", .string "json"), ("value", value)]
  | errorText value => .object [("kind", .string "error_text"), ("value", .string value)]
  | errorJson value => .object [("kind", .string "error_json"), ("value", value)]
  | content parts =>
    .object [("kind", .string "content"), ("value", .array (parts.map (·.toValue)))]
  | executionDenied reason =>
    .object [("kind", .string "execution_denied"), ("value", optionValue reason)]

def CanonicalContent.toValue : CanonicalContent → Value
  | text value => .object [("kind", .string "text"), ("text", .string value)]
  | reasoning value => .object [("kind", .string "reasoning"), ("text", .string value)]
  | file mediaType data filename =>
    .object [("kind", .string "file"), ("media_type", .string mediaType), ("data", data),
      ("filename", optionValue filename)]
  | toolCall id name arguments providerExecuted dynamic =>
    .object [("kind", .string "tool_call"), ("id", .string id), ("name", .string name),
      ("arguments", arguments.toValue), ("provider_executed", .bool providerExecuted),
      ("dynamic", .bool dynamic)]
  | toolResult callId output dynamic =>
    .object [("kind", .string "tool_result"), ("call_id", .string callId),
      ("output", output.toValue), ("dynamic", .bool dynamic)]
  | source citation => .object [("kind", .string "source"), ("source", citation)]
  | toolApprovalRequest approvalId toolCallId =>
    .object [("kind", .string "tool_approval_request"), ("approval_id", .string approvalId),
      ("tool_call_id", .string toolCallId)]
  | toolApprovalResponse approvalId approved reason =>
    .object [("kind", .string "tool_approval_response"), ("approval_id", .string approvalId),
      ("approved", .bool approved), ("reason", optionValue reason)]

def CanonicalTurn.toValue (turn : CanonicalTurn) : Value :=
  .object [("role", .string (roleName turn.role)),
    ("content", .array (turn.content.map (·.toValue)))]

/-- `CanonicalPrefix`: what a digest is taken of. -/
structure CanonicalPrefix where
  version : ℕ
  system : Option String
  turns : List CanonicalTurn

def CanonicalPrefix.toValue (p : CanonicalPrefix) : Value :=
  .object [("version", .number (toString p.version)), ("system", optionValue p.system),
    ("turns", .array (p.turns.map (·.toValue)))]

/-- `serde_json::to_vec`, which has no failure on these types. -/
def toVec (v : Value) : List ℕ := bytes v.render

/-! ## Digests -/

def canonicalPromptVersion : ℕ := 1

/-- The prefixes that are kept. -/
def maxAncestorPrefixDigests : ℕ := 256

def canonicalSuffix : List ℕ := bytes "]\x7d"

/-- What the canonicalizer takes from outside: HMAC-SHA256 under a key, and
the parser of a JSON text. -/
structure Primitives where
  hmacSha256 : List ℕ → List ℕ → List ℕ
  fromStr : String → Option Value

/-- A secret, by its id. -/
structure CorrelationKey where
  keyId : String
  secret : List ℕ

/-- `Hmac<Sha256>`: a key and what it was updated with. -/
structure Hmac where
  secret : List ℕ
  input : List ℕ

def Hmac.newFromSlice (secret : List ℕ) : Hmac := { secret, input := [] }

def Hmac.update (mac : Hmac) (data : List ℕ) : Hmac := { mac with input := mac.input ++ data }

/-- `hex::encode`. -/
def hexEncode (data : List ℕ) : String :=
  String.ofList (data.flatMap fun n => [Nat.digitChar (n / 16), Nat.digitChar (n % 16)])

/-- The digests of a prompt. -/
structure CanonicalPromptDigests where
  fullInputDigest : KeyedDigest
  ancestorPrefixDigests : List KeyedDigest
  ancestorPrefixesTruncated : Bool
  startsWithPriorTurns : Bool
  canonicalInputBytes : ℕ
deriving DecidableEq

section Canonicalize

variable (p : Primitives) (key : CorrelationKey)

def finishDigest (mac : Hmac) : Except String KeyedDigest :=
  KeyedDigest.parse s!"hmac-sha256:{key.keyId}:{hexEncode (p.hmacSha256 mac.secret mac.input)}"

/-- The digest of some bytes at once. -/
def digestBytes (data : List ℕ) : Except String KeyedDigest :=
  finishDigest p key ((Hmac.newFromSlice key.secret).update data)

/-- Where the pass over the turns stands. -/
structure Progress where
  mac : Hmac
  canonicalInputBytes : ℕ
  ancestorPrefixDigests : List KeyedDigest

/-- `mac.update` and the byte count beside it. -/
def Progress.absorb (s : Progress) (data : List ℕ) : Except String Progress := do
  let canonicalInputBytes ← checkedAdd s.canonicalInputBytes data.length
    "canonical prompt exceeds byte-count range"
  return { s with mac := s.mac.update data, canonicalInputBytes }

/-- The comma before every turn but the first. -/
def Progress.absorbComma (s : Progress) (index : ℕ) : Except String Progress :=
  if 0 < index then s.absorb (bytes ",") else .ok s

/-- One turn of `total`: the digest of the prompt that ends here is kept if it
is a proper prefix and among the last ones. -/
def absorbTurn (total : ℕ) (s : Progress) : CanonicalTurn × ℕ → Except String Progress
  | (turn, index) => do
    let s ← s.absorbComma index
    let s ← s.absorb (toVec turn.toValue)
    if index + 1 < total ∧ total - maxAncestorPrefixDigests ≤ index + 1 then
      let digest ← finishDigest p key (s.mac.update canonicalSuffix)
      return { s with ancestorPrefixDigests := s.ancestorPrefixDigests ++ [digest] }
    else return s

/-- The digests, one pass over the turns. -/
def canonicalize (prompt : Prompt) : Except String CanonicalPromptDigests := do
  let turns := canonicalTurns p.fromStr prompt
  let envelope := toVec
    { version := canonicalPromptVersion, system := prompt.system, turns := [] :
      CanonicalPrefix }.toValue
  ensure (canonicalSuffix.isSuffixOf envelope)
    "canonical prompt envelope has an unsupported serialization shape"
  let opening := envelope.take (envelope.length - canonicalSuffix.length)
  let s ← turns.zipIdx.foldlM (absorbTurn p key turns.length)
    { mac := (Hmac.newFromSlice key.secret).update opening,
      canonicalInputBytes := opening.length, ancestorPrefixDigests := [] }
  let s ← s.absorb canonicalSuffix
  let fullInputDigest ← finishDigest p key s.mac
  return {
    fullInputDigest
    ancestorPrefixDigests := s.ancestorPrefixDigests
    ancestorPrefixesTruncated := maxAncestorPrefixDigests < turns.length - 1
    startsWithPriorTurns := turns.any fun turn => turn.role = .assistant || turn.role = .tool
    canonicalInputBytes := s.canonicalInputBytes }

end Canonicalize

end BitRouter.Trajectory.Canonical
