import BitRouter.Gateway.Conversion
import BitRouter.Gateway.StreamedCalls

/-!
# The stream of the Responses wire

`responses.rs`: the encoder of a stream of parts as the events of the
Responses protocol, and a reader of such events. A reply is a sequence of
output items with ascending indices; one item is open at a time. Every event
carries the next sequence number, and the events that end a text, a call or an
item repeat what was sent of it.
-/

namespace BitRouter.Gateway

open Ai
open Registry (Value)

/-! ## Items and events -/

/-- A call for the client to run, `client_call_item`. -/
structure ClientCall where
  custom : Bool
  callId : String
  name : String
  arguments : String
  toolNamespace : Option Value

/-- **An item of the output.** -/
inductive OutputItem
  | message (id status : String) (content : List String)
  | reasoning (id status : String) (summary content : List String)
  /-- A completed reasoning item of the provider, as it was received. -/
  | native (item : Value)
  | clientCall (id status : String) (call : ClientCall)
  | mcpCall (id name arguments output : String) (serverLabel error : Option String)

/-- A usage as Responses has it. -/
structure RenderedResponsesUsage where
  inputTokens : UInt64
  outputTokens : UInt64
  totalTokens : UInt64
  reasoningTokens : UInt64
  cachedTokens : Option UInt64
  cacheWriteTokens : Option UInt64

/-- The response object of the first events and of the last one. -/
structure ResponseEnvelope where
  id : String
  model : String
  status : String
  output : List OutputItem
  usage : Option RenderedResponsesUsage := none

/-- The texts of an item: a message has one part of output, and reasoning a
part of text and one of summary. -/
inductive TextLane
  | output
  | reasoning
  | summary
  deriving DecidableEq, Repr

/-- **An event of the wire.** Content and summary indices are always zero. -/
inductive ResponsesEvent
  | created (response : ResponseEnvelope)
  | inProgress (response : ResponseEnvelope)
  | itemAdded (outputIndex : ℕ) (item : OutputItem)
  | partAdded (lane : TextLane) (itemId : String) (outputIndex : ℕ)
  | textDelta (lane : TextLane) (itemId : String) (outputIndex : ℕ) (delta : String)
  | textDone (lane : TextLane) (itemId : String) (outputIndex : ℕ) (text : String)
  | partDone (lane : TextLane) (itemId : String) (outputIndex : ℕ) (text : String)
  | annotationAdded (itemId : String) (outputIndex annotationIndex : ℕ) (added : Value)
  | argumentsDelta (custom : Bool) (itemId : String) (outputIndex : ℕ) (delta : String)
  | argumentsDone (custom : Bool) (itemId : String) (outputIndex : ℕ) (arguments : String)
  | itemDone (outputIndex : ℕ) (item : OutputItem)
  | terminal (response : ResponseEnvelope)

/-- An event, with its number. -/
structure ResponsesFrame where
  sequenceNumber : ℕ
  event : ResponsesEvent

/-! ## The encoder -/

/-- An open message. -/
structure ItemState where
  itemId : String
  outputIndex : ℕ
  accumulatedText : String := ""

/-- The open reasoning item. -/
structure ReasoningItemState where
  itemId : String
  outputIndex : ℕ
  summaryText : String := ""
  reasoningText : String := ""
  summaryOpened : Bool := false
  textOpened : Bool

/-- The open tool item. -/
structure ToolItemState where
  callId : String
  itemId : String
  outputIndex : ℕ
  toolName : String
  accumulatedArgs : String := ""
  providerMetadata : ProviderMetadata

/-- A server call without its result. -/
structure PendingMcpCall where
  id : String
  name : String
  arguments : String
  serverName : Option String

/-- **The encoder.** The counters are natural numbers; `uuids` counts the
identifiers it has drawn. -/
structure ResponsesStreamEncoder where
  responseId : Except ModelError String
  model : String
  seq : ℕ := 0
  created : Bool := false
  nextOutputIndex : ℕ := 0
  reasoningItem : Option ReasoningItemState := none
  reasoningSource : Option ApiProtocol := none
  reasoningNative : Option NativeReasoning := none
  textItem : Option ItemState := none
  toolItem : Option ToolItemState := none
  completedItems : List OutputItem := []
  annotationIndex : ℕ := 0
  pendingMcpCall : Option PendingMcpCall := none
  pendingUsage : Option Usage := none
  uuids : ℕ := 0

/-- The encoder, and its frames. -/
structure ResponsesEncoding where
  encoder : ResponsesStreamEncoder
  frames : List ResponsesFrame := []

/-- The texts of a result, one line each. -/
def contentText (value : List Value) : String :=
  "\n".intercalate (value.filterMap fun part =>
    if (part.get "type").bind Value.asStr = some "text" then (part.get "text").bind Value.asStr
    else none)

def mcpCallOutput : ToolResultOutput → String × Option String
  | .text value => (value, none)
  | .errorText value => ("", some value)
  | .json value => (value.render, none)
  | .errorJson value => ("", some value.render)
  | .content value => (contentText value, none)
  | .executionDenied reason => ("", some ("execution denied: " ++ reason.getD ""))

def customCall (metadata : ProviderMetadata) : Bool :=
  ((providerNamespace metadata "openai").bind (IndexMap.get · "type")).bind Value.asStr
    = some "custom_tool_call"

/-- A call as an output item. -/
def clientCallItem (id name arguments : String) (metadata : ProviderMetadata) : ClientCall where
  custom := customCall metadata
  callId := id
  name := name
  arguments := arguments
  toolNamespace := (providerNamespace metadata "openai").bind (IndexMap.get · "namespace")

def renderSourceAnnotation : Source → Value
  | .url _ url title => .object ([("type", .string "url_citation"), ("url", .string url)]
      ++ (title.map fun title => ("title", Value.string title)).toList)
  | .document _ _ title filename =>
    .object [("type", .string "file_citation"), ("filename", .string (filename.getD title))]

def renderResponsesUsage (u : Usage) : RenderedResponsesUsage where
  inputTokens := u.promptTokens
  outputTokens := u.completionTokens
  totalTokens := u.promptTokens + u.completionTokens
  reasoningTokens := u.reasoningTokens
  cachedTokens := if u.cacheReadTokens > 0 then some u.cacheReadTokens else none
  cacheWriteTokens := if u.cacheWriteTokens > 0 then some u.cacheWriteTokens else none

def nullOrText (item : Value) (field : String) : Bool :=
  (item.get field).all fun value => value.isNull || value.isString

def nullOrArray (item : Value) (field : String) : Bool :=
  (item.get field).all fun value => value.isNull || value.isArray

/-- Whether the parts of a field are texts of a kind. -/
def partsAreTexts (item : Value) (field kind : String) : Bool :=
  (((item.get field).bind Value.asArray).getD []).all fun part =>
    (part.get "type").bind Value.asStr = some kind && ((part.get "text").bind Value.asStr).isSome

/-- **A native reasoning item**, validated. -/
def nativeReasoningItem (native : NativeReasoning) : Except ModelError Value := do
  let item := native.item
  ensure ((item.get "type").bind Value.asStr = some "reasoning")
    (invalid "native reasoning payload is not a Responses reasoning item")
  ensure (nullOrText item "id" && nullOrText item "encrypted_content")
    (invalid "native reasoning contains a malformed identity or encrypted field")
  ensure (nullOrArray item "summary") (invalid "native reasoning text parts must be arrays")
  ensure (partsAreTexts item "summary" "summary_text")
    (invalid "native reasoning text part is malformed")
  ensure (nullOrArray item "content") (invalid "native reasoning text parts must be arrays")
  ensure (partsAreTexts item "content" "reasoning_text")
    (invalid "native reasoning text part is malformed")
  return item

namespace ReasoningItemState

/-- The item as it is rendered when it is done: the native one, if there is
one. -/
def item (state : ReasoningItemState) (native : Option NativeReasoning) : OutputItem :=
  match native with
  | some native => .native native.item
  | none => .reasoning state.itemId "completed"
    (if state.summaryOpened then [state.summaryText] else [])
    (if state.textOpened then [state.reasoningText] else [])

def push (state : ReasoningItemState) (summary : Bool) (text : String) :
    ReasoningItemState :=
  if summary then
    { state with summaryOpened := true, summaryText := state.summaryText ++ text }
  else { state with textOpened := true, reasoningText := state.reasoningText ++ text }

end ReasoningItemState

namespace ResponsesEncoding

variable (uuid : ℕ → String)

/-- Emit an event with the next sequence number. -/
def ev (out : ResponsesEncoding) (event : ResponsesEvent) : ResponsesEncoding where
  encoder := { out.encoder with seq := out.encoder.seq + 1 }
  frames := out.frames ++ [{ sequenceNumber := out.encoder.seq, event }]

/-- The first frame creates the response. -/
def ensureCreated (out : ResponsesEncoding) : Except EncoderError ResponsesEncoding :=
  if out.encoder.created then .ok out
  else
    match out.encoder.responseId with
    | .error error => .error (.model error)
    | .ok responseId =>
      let response : ResponseEnvelope := {
        id := responseId, model := out.encoder.model, status := "in_progress", output := [] }
      let out := { out with encoder := { out.encoder with created := true } }
      .ok ((out.ev (.created response)).ev (.inProgress response))

/-- Open an item at the next index. -/
def addItem (out : ResponsesEncoding) (item : OutputItem) : ResponsesEncoding :=
  let index := out.encoder.nextOutputIndex
  ResponsesEncoding.ev { out with encoder := { out.encoder with nextOutputIndex := index + 1 } }
    (.itemAdded index item)

/-- End an item, which the last event repeats. -/
def finishItem (out : ResponsesEncoding) (index : ℕ) (item : OutputItem) : ResponsesEncoding :=
  let out := out.ev (.itemDone index item)
  { out with encoder := { out.encoder with
      completedItems := out.encoder.completedItems ++ [item] } }

/-- End one text of an item. -/
def finishLane (out : ResponsesEncoding) (lane : TextLane) (itemId : String) (index : ℕ)
    (text : String) : ResponsesEncoding :=
  (out.ev (.textDone lane itemId index text)).ev (.partDone lane itemId index text)

/-- End the texts of a reasoning item that were opened. -/
def finishLanes (out : ResponsesEncoding) (state : ReasoningItemState) : ResponsesEncoding :=
  let out :=
    if state.summaryOpened then
      out.finishLane .summary state.itemId state.outputIndex state.summaryText
    else out
  if state.textOpened then
    out.finishLane .reasoning state.itemId state.outputIndex state.reasoningText
  else out

/-- Closes reasoning, if it is open. -/
def closeReasoningItem (out : ResponsesEncoding) : ResponsesEncoding :=
  match out.encoder.reasoningItem with
  | none => out
  | some state =>
    let native := out.encoder.reasoningNative
    let out := finishLanes { out with encoder := { out.encoder with reasoningItem := none } } state
    let out := { out with encoder := { out.encoder with
      reasoningSource := none, reasoningNative := none } }
    out.finishItem state.outputIndex (state.item native)

/-- Closes the text, if it is open. -/
def closeTextItem (out : ResponsesEncoding) : ResponsesEncoding :=
  match out.encoder.textItem with
  | none => out
  | some state =>
    let out := { out with encoder := { out.encoder with textItem := none } }
    let out := out.finishLane .output state.itemId state.outputIndex state.accumulatedText
    out.finishItem state.outputIndex (.message state.itemId "completed" [state.accumulatedText])

/-- Closes the call, if it is open. -/
def closeToolItem (out : ResponsesEncoding) : ResponsesEncoding :=
  match out.encoder.toolItem with
  | none => out
  | some state =>
    let out := { out with encoder := { out.encoder with toolItem := none } }
    let out := out.ev (.argumentsDone (customCall state.providerMetadata) state.itemId
      state.outputIndex state.accumulatedArgs)
    out.finishItem state.outputIndex (.clientCall state.itemId "completed" (clientCallItem
      state.callId state.toolName state.accumulatedArgs state.providerMetadata))

/-- A new identifier. -/
def freshId (out : ResponsesEncoding) (kind : String) : String :=
  kind ++ uuid out.encoder.uuids

def drawId (out : ResponsesEncoding) : ResponsesEncoding :=
  { out with encoder := { out.encoder with uuids := out.encoder.uuids + 1 } }

/-- Open a reasoning item, if none is open. -/
def openReasoningItem (out : ResponsesEncoding) (nativeId : Option String) : ResponsesEncoding :=
  if out.encoder.reasoningItem.isSome then out
  else
    let out := out.closeTextItem.closeToolItem
    let index := out.encoder.nextOutputIndex
    let itemId := nativeId.getD (out.freshId uuid "rs_")
    let out := if nativeId.isSome then out else out.drawId
    let out := out.addItem (.reasoning itemId "in_progress" [] [])
    let textOpened : Bool := out.encoder.reasoningSource ≠ some .responses
    let out := if textOpened then out.ev (.partAdded .reasoning itemId index) else out
    { out with encoder := { out.encoder with
        reasoningItem := some { itemId, outputIndex := index, textOpened } } }

/-- Whatever is open is closed. -/
def openFreshReasoningItem (out : ResponsesEncoding) (id : String) (source : Option ApiProtocol) :
    ResponsesEncoding :=
  let out := out.closeReasoningItem
  let out := { out with encoder := { out.encoder with reasoningSource := source } }
  out.openReasoningItem uuid (if source = some .responses then some id else none)

/-- Open a message, if none is open. -/
def openTextItem (out : ResponsesEncoding) : ResponsesEncoding :=
  if out.encoder.textItem.isSome then out
  else
    let out := out.closeReasoningItem.closeToolItem
    let index := out.encoder.nextOutputIndex
    let itemId := out.freshId uuid "msg_"
    let out := out.drawId.addItem (.message itemId "in_progress" [])
    let out := out.ev (.partAdded .output itemId index)
    { out with encoder := { out.encoder with textItem := some { itemId, outputIndex := index } } }

def openFreshTextItem (out : ResponsesEncoding) : ResponsesEncoding :=
  out.closeTextItem.openTextItem uuid

/-- Open a call for the client. -/
def openToolItem (out : ResponsesEncoding) (callId name : String) (metadata : ProviderMetadata) :
    ResponsesEncoding :=
  let out := out.closeReasoningItem.closeTextItem.closeToolItem
  let index := out.encoder.nextOutputIndex
  let itemId := out.freshId uuid "fc_"
  let out := out.drawId.addItem
    (.clientCall itemId "in_progress" (clientCallItem callId name "" metadata))
  { out with encoder := { out.encoder with
      toolItem := some {
        callId, itemId, outputIndex := index, toolName := name, providerMetadata := metadata } } }

/-- The last event, with all items. -/
def emitTerminal (out : ResponsesEncoding) (status responseId : String) (usage : Option Usage) :
    ResponsesEncoding :=
  let out := out.closeReasoningItem.closeTextItem.closeToolItem
  let items := out.encoder.completedItems
  ResponsesEncoding.ev { out with encoder := { out.encoder with completedItems := [] } }
    (.terminal {
      id := responseId, model := out.encoder.model, status, output := items
      usage := usage.map renderResponsesUsage })

/-- A delta of the text. -/
def textDelta (out : ResponsesEncoding) (text : String) : ResponsesEncoding :=
  let out := out.openTextItem uuid
  match out.encoder.textItem with
  | none => out
  | some state =>
    let out := { out with encoder := { out.encoder with
      textItem := some { state with accumulatedText := state.accumulatedText ++ text } } }
    out.ev (.textDelta .output state.itemId state.outputIndex text)

def reasoningDelta (out : ResponsesEncoding) (text : String)
    (sourceKind : Option ReasoningTextKind) : ResponsesEncoding :=
  let out := out.openReasoningItem uuid none
  let summary : Bool := sourceKind = some .summary
  match out.encoder.reasoningItem with
  | none => out
  | some state =>
    let opened := if summary then state.summaryOpened else state.textOpened
    let lane := if summary then .summary else .reasoning
    let out := { out with encoder := { out.encoder with
      reasoningItem := some (state.push summary text) } }
    let out := if opened then out else out.ev (.partAdded lane state.itemId state.outputIndex)
    out.ev (.textDelta lane state.itemId state.outputIndex text)

/-- The end of a reasoning block. A native item has to be the one that was
streamed. -/
def reasoningEnd (out : ResponsesEncoding) (id : String) (native : Option NativeReasoning) :
    Except EncoderError ResponsesEncoding :=
  match native with
  | none => .ok out.closeReasoningItem
  | some native => do
    let item ← (nativeReasoningItem native).mapError .model
    match out.encoder.reasoningItem with
    | none => .error (.model (invalid "native reasoning ended after its output block was closed"))
    | some state =>
      ensure (state.itemId = id ∧ (item.get "id").bind Value.asStr = some id)
        (.model (invalid "native reasoning identity does not match its open output block"))
      ensure (visibleText native = state.summaryText ++ state.reasoningText)
        (.model (invalid "native reasoning text differs from the emitted block"))
      return closeReasoningItem { out with encoder := { out.encoder with
        reasoningNative := some native } }

/-- A fragment of a call, which goes to the open call, whatever its id. -/
def argumentsDelta (out : ResponsesEncoding) (id arguments : String) (metadata : ProviderMetadata) :
    ResponsesEncoding :=
  let out := if out.encoder.toolItem.isNone then out.openToolItem uuid id "" metadata else out
  match out.encoder.toolItem with
  | none => out
  | some state =>
    let out := { out with encoder := { out.encoder with
      toolItem := some { state with accumulatedArgs := state.accumulatedArgs ++ arguments } } }
    out.ev (.argumentsDelta (customCall state.providerMetadata) state.itemId state.outputIndex
      arguments)

/-- Only a name opens an item. -/
def toolCallDelta (out : ResponsesEncoding) (id : String) (name : Option String)
    (arguments : String) (metadata : ProviderMetadata) : ResponsesEncoding :=
  let out :=
    match givenName name with
    | some name => out.openToolItem uuid id name metadata
    | none => out
  if arguments = "" then out else out.argumentsDelta uuid id arguments metadata

/-- The item of a call that the router has executed. -/
def serverToolResult (out : ResponsesEncoding) (callId : String) (output : ToolResultOutput) :
    ResponsesEncoding :=
  let out := out.closeReasoningItem.closeTextItem.closeToolItem
  let pending := out.encoder.pendingMcpCall.filter (·.id = callId)
  let out := { out with encoder := { out.encoder with pendingMcpCall := none } }
  let index := out.encoder.nextOutputIndex
  let item : OutputItem := .mcpCall (out.freshId uuid "mcp_") ((pending.map (·.name)).getD "")
    ((pending.map (·.arguments)).getD "") (mcpCallOutput output).1
    (pending.bind (·.serverName)) (mcpCallOutput output).2
  (out.drawId.addItem item).finishItem index item

/-- A citation of the open message. -/
def cite (out : ResponsesEncoding) (source : Source) : ResponsesEncoding :=
  let out := out.openTextItem uuid
  match out.encoder.textItem with
  | none => out
  | some state =>
    let index := out.encoder.annotationIndex
    ResponsesEncoding.ev { out with encoder := { out.encoder with annotationIndex := index + 1 } }
      (.annotationAdded state.itemId state.outputIndex index
        <| renderSourceAnnotation source)

/-- The end of a stream, which names the response. -/
def terminal (out : ResponsesEncoding) (status : String) (usage : Option Usage) :
    Except EncoderError ResponsesEncoding :=
  match out.encoder.responseId with
  | .error error => .error (.model error)
  | .ok responseId => .ok (out.emitTerminal status responseId usage)

def finishStatus : FinishReason → String
  | .length => "incomplete"
  | .error _ => "failed"
  | _ => "completed"

/-- **The frames of one part.** -/
def encodePart (out : ResponsesEncoding) : StreamPart → Except EncoderError ResponsesEncoding
  | .other (.file _ _) => .ok out
  | .other (.textStart _) => .ok (out.openFreshTextItem uuid)
  | .other (.reasoningStart id source) => .ok (out.openFreshReasoningItem uuid id source)
  | .other (.textEnd _) => .ok out.closeTextItem
  | .other (.reasoningEnd id _ native) => out.reasoningEnd id native
  | .textDelta text => .ok (out.textDelta uuid text)
  | .other (.reasoningDelta text sourceKind) => .ok (out.reasoningDelta uuid text sourceKind)
  | .toolCallDelta id name arguments metadata =>
    .ok (out.toolCallDelta uuid id name arguments metadata)
  | .serverToolCall id name arguments serverName _ =>
    .ok { out with encoder := { out.encoder with
      pendingMcpCall := some { id, name, arguments, serverName } } }
  | .serverToolResult callId _ output _ => .ok (out.serverToolResult uuid callId output)
  | .other (.source source) => .ok (out.cite uuid source)
  | .usage usage => .ok { out with encoder := { out.encoder with pendingUsage := some usage } }
  | .other (.responseStarted _ _) => .ok out
  | .finish reason =>
    ResponsesEncoding.terminal { out with encoder := { out.encoder with pendingUsage := none } }
      (finishStatus reason) out.encoder.pendingUsage
  | .responseCompleted completion usage =>
    ResponsesEncoding.terminal { out with encoder := { out.encoder with
        pendingUsage := if usage.isSome then out.encoder.pendingUsage else none } }
      completion.status (usage.or out.encoder.pendingUsage)

end ResponsesEncoding

/-- **Encode one part.** -/
def ResponsesStreamEncoder.encode (uuid : ℕ → String) (encoder : ResponsesStreamEncoder)
    (part : StreamPart) : Except EncoderError ResponsesEncoding := do
  (rejectGoogleContinuityPart part .responses).mapError .incompatible
  let out ← ResponsesEncoding.ensureCreated { encoder }
  out.encodePart uuid part

def ResponsesStreamEncoder.encodeAll (uuid : ℕ → String) (encoder : ResponsesStreamEncoder)
    (parts : List StreamPart) : Except EncoderError ResponsesEncoding :=
  parts.foldlM (fun out part => do
    let next ← out.encoder.encode uuid part
    return { next with frames := out.frames ++ next.frames }) { encoder }

end BitRouter.Gateway
