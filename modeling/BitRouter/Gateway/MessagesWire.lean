import BitRouter.Gateway.Conversion
import BitRouter.Gateway.StreamedCalls

/-!
# The stream of the Messages wire

`messages.rs`: the encoder of a stream of parts as the events of the Messages
protocol, and a reader of such events. A reply is a sequence of content blocks
with ascending indices; one block is open at a time, and its deltas are of its
own type. Reasoning is held back until its signature arrives, and citations
until the end.
-/

namespace BitRouter.Gateway

open Ai
open Registry (Value)

/-! ## Events -/

/-- The block an event opens. -/
inductive ContentBlock
  | text
  | toolUse (id name : String)
  | thinking
  | serverToolUse (id name : String)
  | mcpToolUse (id name serverName : String)
  | mcpToolResult (toolUseId : String) (isError : Bool) (content : Value)
  | webSearchToolResult (toolUseId : String) (content : List Value)

/-- What a delta adds to a block. -/
inductive BlockDelta
  | text (text : String)
  | inputJson (partialJson : String)
  | thinking (thinking : String)
  | signature (signature : String)

/-- The usage object of the last event. -/
structure RenderedUsage where
  inputTokens : UInt64
  outputTokens : UInt64
  cacheReadInputTokens : Option UInt64
  cacheCreationInputTokens : Option UInt64

/-- **An event of the wire.** -/
inductive MessagesFrame
  | messageStart (id model : String)
  | contentBlockStart (index : ℕ) (block : ContentBlock)
  | contentBlockDelta (index : ℕ) (delta : BlockDelta)
  | contentBlockStop (index : ℕ)
  | messageDelta (stopReason : String) (usage : RenderedUsage)
  | messageStop

/-! ## The encoder -/

/-- The blocks the encoder keeps open. -/
inductive EncoderBlockKind
  | text
  | toolUse
  deriving DecidableEq, Repr

/-- The state of the encoder. -/
structure MessagesStreamEncoder where
  requestId : String
  model : String
  started : Bool := false
  blockOpen : Bool := false
  blockKind : Option EncoderBlockKind := none
  blockIndex : ℕ := 0
  pendingSources : List Value := []
  pendingReasoning : Option String := none
  pendingUsage : Option Usage := none

/-- The encoder, and its frames for one part. -/
structure MessagesEncoding where
  encoder : MessagesStreamEncoder
  frames : List MessagesFrame := []

/-- The block that citations are put in. -/
def syntheticWebSearchId : String := "srvtoolu_citations"

def anthropicWebSearchTool : String := "web_search"

/-- A text as a content block. -/
def textBlockValue (text : String) : Value :=
  .object [("type", .string "text"), ("text", .string text)]

def serverToolResultContent : ToolResultOutput → Value × Bool
  | .text value => (.array [textBlockValue value], false)
  | .errorText value => (.array [textBlockValue value], true)
  | .json value => (.array [textBlockValue value.render], false)
  | .errorJson value => (.array [textBlockValue value.render], true)
  | .content value =>
    (.array (value.filterMap fun part =>
      if (part.get "type").bind Value.asStr = some "text" then
        ((part.get "text").bind Value.asStr).map textBlockValue
      else none), false)
  | .executionDenied reason =>
    (.array [textBlockValue ("execution denied: " ++ reason.getD "")], true)

/-- `u64::saturating_sub`. -/
def saturatingSub (a b : UInt64) : UInt64 := UInt64.ofNat (a.toNat - b.toNat)

/-- Cached tokens are not input tokens. -/
def renderUsage (u : Usage) : RenderedUsage where
  inputTokens := saturatingSub (saturatingSub u.promptTokens u.cacheReadTokens) u.cacheWriteTokens
  outputTokens := u.completionTokens
  cacheReadInputTokens := if u.cacheReadTokens > 0 then some u.cacheReadTokens else none
  cacheCreationInputTokens := if u.cacheWriteTokens > 0 then some u.cacheWriteTokens else none

/-- The reason, as Anthropic names it. -/
def finishToStopReason : FinishReason → String
  | .stop => "end_turn"
  | .length => "max_tokens"
  | .toolCalls => "tool_use"
  | .contentFilter => "refusal"
  | .other reason => reason
  | .error _ => "end_turn"

namespace MessagesEncoding

/-- Emits a frame. -/
def push (out : MessagesEncoding) (frame : MessagesFrame) : MessagesEncoding :=
  { out with frames := out.frames ++ [frame] }

/-- A whole block, opened and closed at once. -/
def pushBlock (out : MessagesEncoding) (block : ContentBlock) (deltas : List BlockDelta) :
    MessagesEncoding :=
  let index := out.encoder.blockIndex
  { encoder := { out.encoder with blockIndex := index + 1 }
    frames := out.frames ++ .contentBlockStart index block
      :: deltas.map (.contentBlockDelta index) ++ [.contentBlockStop index] }

/-- The first frame starts the message. -/
def ensureStarted (out : MessagesEncoding) : MessagesEncoding :=
  if out.encoder.started then out
  else
    { out with encoder := { out.encoder with started := true } }.push
      (.messageStart out.encoder.requestId out.encoder.model)

/-- Closes the open block, if any. -/
def closeBlock (out : MessagesEncoding) : MessagesEncoding :=
  if out.encoder.blockOpen then
    { out.push (.contentBlockStop out.encoder.blockIndex) with
      encoder := { out.encoder with
        blockOpen := false, blockKind := none, blockIndex := out.encoder.blockIndex + 1 } }
  else out

/-- Held citations become one block. -/
def flushPendingSources (out : MessagesEncoding) : MessagesEncoding :=
  if out.encoder.pendingSources = [] then out
  else
    let results := out.encoder.pendingSources
    let out := { out with encoder := { out.encoder with pendingSources := [] } }.closeBlock
    let out := out.pushBlock (.serverToolUse syntheticWebSearchId anthropicWebSearchTool) []
    out.pushBlock (.webSearchToolResult syntheticWebSearchId results) []

/-- Held reasoning is lost. -/
def dropReasoning (out : MessagesEncoding) : MessagesEncoding :=
  { out with encoder := { out.encoder with pendingReasoning := none } }

/-- Reasoning is held for its signature. -/
def beginReasoningBuffer (out : MessagesEncoding) : MessagesEncoding :=
  let out := out.closeBlock
  { out with encoder := { out.encoder with pendingReasoning := some "" } }

/-- More of the held reasoning. -/
def pushReasoningDelta (out : MessagesEncoding) (text : String) : MessagesEncoding :=
  let out := if out.encoder.pendingReasoning.isNone then out.beginReasoningBuffer else out
  { out with encoder := { out.encoder with
      pendingReasoning := out.encoder.pendingReasoning.map (· ++ text) } }

/-- Signed reasoning becomes a block. -/
def flushReasoningBuffer (out : MessagesEncoding) (signature : Option String) : MessagesEncoding :=
  match out.encoder.pendingReasoning, signature with
  | some text, some signature =>
    out.dropReasoning.pushBlock .thinking
      ((if text = "" then [] else [.thinking text]) ++ [.signature signature])
  | _, _ => out.dropReasoning

/-- Have a block of a kind open. The flag tells whether it is new. -/
def ensureBlockOpen (out : MessagesEncoding) (wanted : EncoderBlockKind) :
    MessagesEncoding × Bool :=
  let out :=
    if out.encoder.blockOpen && out.encoder.blockKind ≠ some wanted then out.closeBlock else out
  if out.encoder.blockOpen then (out, false)
  else ({ out with encoder := { out.encoder with
      blockKind := some wanted, blockOpen := true } }, true)

/-- A block with the next index. -/
def openFreshBlock (out : MessagesEncoding) (kind : EncoderBlockKind) : MessagesEncoding :=
  let out := out.closeBlock
  let out := { out with encoder := { out.encoder with blockKind := some kind, blockOpen := true } }
  out.push (.contentBlockStart out.encoder.blockIndex
    (match kind with
    | .text => .text
    | .toolUse => .toolUse "" ""))

/-- The frames that end a message. -/
def emitTerminal (out : MessagesEncoding) (stopReason : String) (usage : Option Usage) :
    MessagesEncoding :=
  let out := out.dropReasoning.flushPendingSources.closeBlock
  (out.push (.messageDelta stopReason (renderUsage (usage.getD {})))).push .messageStop

/-- A delta of a tool call. -/
def toolCallDelta (out : MessagesEncoding) (id : String) (name : Option String)
    (arguments : String) : MessagesEncoding :=
  let out := out.dropReasoning
  let out :=
    match givenName name with
    | some name =>
      let (out, _) := out.closeBlock.ensureBlockOpen .toolUse
      out.push (.contentBlockStart out.encoder.blockIndex (.toolUse id name))
    | none => out
  if arguments = "" then out
  else out.push (.contentBlockDelta out.encoder.blockIndex (.inputJson arguments))

/-- A delta of the text. -/
def textDelta (out : MessagesEncoding) (text : String) : MessagesEncoding :=
  let (out, new) := out.dropReasoning.ensureBlockOpen .text
  let out := if new then out.push (.contentBlockStart out.encoder.blockIndex .text) else out
  out.push (.contentBlockDelta out.encoder.blockIndex (.text text))

/-- The block of a call that the router or the provider has executed. -/
def serverToolBlock (id name : String) (serverName : Option String) (dynamic : Bool) :
    ContentBlock :=
  match serverName with
  | some server => if dynamic then .mcpToolUse id name server else .serverToolUse id name
  | none => .serverToolUse id name

/-- A citation as a search result. -/
def sourceEntry : Source → Option Value
  | .url _ url title => some (.object ([("type", .string "web_search_result"),
      ("url", .string url)] ++ (title.map fun title => ("title", Value.string title)).toList))
  | .document _ _ _ _ => none

/-- **The frames of one part.** -/
def encodePart (out : MessagesEncoding) : StreamPart → MessagesEncoding
  | .other (.file _ _) => out
  | .other (.textStart _) => out.dropReasoning.openFreshBlock .text
  | .other (.reasoningStart _ _) => out.beginReasoningBuffer
  | .other (.textEnd _) => out.dropReasoning.closeBlock
  | .other (.reasoningEnd _ signature _) => out.flushReasoningBuffer signature
  | .textDelta text => out.textDelta text
  | .other (.reasoningDelta text _) => out.pushReasoningDelta text
  | .toolCallDelta id name arguments _ => out.toolCallDelta id name arguments
  | .serverToolCall id name arguments serverName dynamic =>
    out.closeBlock.pushBlock (serverToolBlock id name serverName dynamic)
      (if arguments = "" then [] else [.inputJson arguments])
  | .serverToolResult callId _ output _ =>
    out.closeBlock.pushBlock (.mcpToolResult callId (serverToolResultContent output).2
      (serverToolResultContent output).1) []
  | .other (.source source) =>
    let out := out.dropReasoning
    { out with encoder := { out.encoder with
        pendingSources := out.encoder.pendingSources ++ (sourceEntry source).toList } }
  | .usage usage => { out with encoder := { out.encoder with pendingUsage := some usage } }
  | .other (.responseStarted _ _) => out
  | .finish reason =>
    { out with encoder := { out.encoder with pendingUsage := none } }.emitTerminal
      (finishToStopReason reason) out.encoder.pendingUsage
  | .responseCompleted completion usage =>
    { out with encoder := { out.encoder with
        pendingUsage := if usage.isSome then out.encoder.pendingUsage else none } }.emitTerminal
      (if completion.status = "incomplete" then "max_tokens" else "end_turn")
      (usage.or out.encoder.pendingUsage)

end MessagesEncoding

/-- **Encode one part.** -/
def MessagesStreamEncoder.encode (encoder : MessagesStreamEncoder) (part : StreamPart) :
    Except ConversionReport MessagesEncoding := do
  rejectUnrepresentableNativeReasoningPart part .messages
  return (MessagesEncoding.ensureStarted { encoder }).encodePart part

/-- A stream, part by part. -/
def MessagesStreamEncoder.encodeAll (encoder : MessagesStreamEncoder) (parts : List StreamPart) :
    Except ConversionReport MessagesEncoding :=
  parts.foldlM (fun out part => do
    let next ← out.encoder.encode part
    return { next with frames := out.frames ++ next.frames }) { encoder }

/-! ## A reader of the events -/

/-- A block as it was read. -/
structure ReadBlock where
  block : ContentBlock
  deltas : List BlockDelta := []

/-- Where in a message a client is. -/
inductive ReaderPhase
  | fresh
  | streaming
  | ending
  | done
  deriving DecidableEq, Repr

/-- The blocks a client has read. -/
structure MessagesReader where
  phase : ReaderPhase := .fresh
  closed : List ReadBlock := []
  opened : Option ReadBlock := none

/-- Whether a delta is of the type of a block. -/
def BlockDelta.fits : BlockDelta → ContentBlock → Bool
  | .text _, .text => true
  | .inputJson _, .toolUse _ _ => true
  | .inputJson _, .serverToolUse _ _ => true
  | .inputJson _, .mcpToolUse _ _ _ => true
  | .thinking _, .thinking => true
  | .signature _, .thinking => true
  | _, _ => false

namespace MessagesReader

/-- **Read one event**, which the rules of the wire may not allow here. -/
def read (r : MessagesReader) : MessagesFrame → Option MessagesReader
  | .messageStart _ _ => if r.phase = .fresh then some { r with phase := .streaming } else none
  | .contentBlockStart index block =>
    if r.phase = .streaming ∧ r.opened.isNone ∧ index = r.closed.length then
      some { r with opened := some { block } }
    else none
  | .contentBlockDelta index delta =>
    match r.opened with
    | none => none
    | some opened =>
      if r.phase = .streaming ∧ index = r.closed.length ∧ delta.fits opened.block then
        some { r with opened := some { opened with deltas := opened.deltas ++ [delta] } }
      else none
  | .contentBlockStop index =>
    match r.opened with
    | none => none
    | some opened =>
      if r.phase = .streaming ∧ index = r.closed.length then
        some { r with closed := r.closed ++ [opened], opened := none }
      else none
  | .messageDelta _ _ =>
    if r.phase = .streaming ∧ r.opened.isNone then some { r with phase := .ending } else none
  | .messageStop => if r.phase = .ending then some { r with phase := .done } else none

/-- Reads frames one by one. -/
def readAll (r : MessagesReader) (frames : List MessagesFrame) : Option MessagesReader :=
  frames.foldlM read r

end MessagesReader

/-- The deltas of a block of one type, put together. -/
def ReadBlock.joined (b : ReadBlock) (value : BlockDelta → Option String) : String :=
  String.join (b.deltas.filterMap value)

def BlockDelta.asText : BlockDelta → Option String
  | text value => some value
  | _ => none

def BlockDelta.asInput : BlockDelta → Option String
  | inputJson value => some value
  | _ => none

def BlockDelta.asThinking : BlockDelta → Option String
  | thinking value => some value
  | _ => none

def BlockDelta.asSignature : BlockDelta → Option String
  | signature value => some value
  | _ => none

namespace ReadBlock

def texts (b : ReadBlock) : List String := b.deltas.filterMap BlockDelta.asText

/-- The call of a tool block. -/
def call (b : ReadBlock) : Option StreamedCall :=
  match b.block with
  | .toolUse id name => some { id, name, arguments := b.joined BlockDelta.asInput }
  | _ => none

/-- The text and the signature of a thinking block. -/
def reasoning (b : ReadBlock) : Option (String × String) :=
  match b.block with
  | .thinking => some (b.joined BlockDelta.asThinking, b.joined BlockDelta.asSignature)
  | _ => none

end ReadBlock

namespace MessagesReader

/-- All the blocks that were opened. -/
def blocks (r : MessagesReader) : List ReadBlock := r.closed ++ r.opened.toList

def texts (r : MessagesReader) : List String := r.blocks.flatMap ReadBlock.texts

def calls (r : MessagesReader) : List StreamedCall := r.blocks.filterMap ReadBlock.call

def reasoning (r : MessagesReader) : List (String × String) :=
  r.blocks.filterMap ReadBlock.reasoning

end MessagesReader

end BitRouter.Gateway
