import BitRouter.Ai.Types

/-!
# Collecting a stream

`stream/collect.rs`: the canonical parts of a stream put together into one
model result. Text and reasoning go to the block that is open, else to the
last block if it is of their kind, else to a new one; the summary lane of a
reasoning block is kept apart and put in front when the block closes, or at
the end of the stream; the fragments of a tool call are matched by its id.
-/

namespace BitRouter.Gateway

open Ai
open Registry (Value)

/-- A failure of the collector, or of the reader or writer of a wire. -/
inductive ModelError
  | invalidResponse (message : String) (usage : Option Usage)
  | invalidRequest (message : String)
  | provider (status : ℕ) (message : String)

def invalid (message : String) : ModelError := .invalidResponse message none

/-- Set one key of the metadata of a provider. An entry that is not an object
is replaced. -/
def setProviderMetadata (metadata : ProviderMetadata) (providerId key : String) (value : Value) :
    ProviderMetadata :=
  let fields := ((IndexMap.get metadata providerId).bind Value.asObject).getD []
  IndexMap.insert metadata providerId (.object (IndexMap.insert fields key value))

/-- All visible text of a retained item. -/
def visibleText (native : NativeReasoning) : String :=
  String.join (["summary", "content"].flatMap (fun field =>
    (((native.item.get field).bind Value.asArray).getD []).filterMap
      (fun part => (part.get "text").bind Value.asStr)))

/-- **The state of a collection.** -/
structure Collector where
  content : List Content := []
  toolIndices : List (String × ℕ) := []
  textBlock : Option (String × ℕ) := none
  reasoningBlock : Option (String × ℕ) := none
  reasoningSummaries : List (ℕ × String) := []
  usage : Option Usage := none
  finishReason : Option FinishReason := none
  responseId : Option String := none

/-- The result of a collection; the fields no part carries are left out. -/
structure Collected where
  content : List Content
  usage : Option Usage
  finishReason : Option FinishReason
  responseId : Option String

/-! ## Blocks -/

/-- A new block of text or of reasoning. -/
def freshBlock (text : String) (reasoning : Bool) : Content :=
  if reasoning then .other (.reasoning text [] none) else .text text []

def extendBlock (text : String) (reasoning : Bool) : Content → Option Content
  | .text current metadata =>
    if reasoning then none else some (.text (current ++ text) metadata)
  | .other (.reasoning current metadata native) =>
    if reasoning then some (.other (.reasoning (current ++ text) metadata native)) else none
  | _ => none

/-- **Append text** to a block, or to the last one, or to a new one; the index
is the one of the block. -/
def appendText (content : List Content) (index : Option ℕ) (text : String) (reasoning : Bool) :
    Except ModelError (ℕ × List Content) :=
  let actualIndex := index.getD (content.length - 1)
  match content[actualIndex]?.bind (extendBlock text reasoning) with
  | some block => .ok (actualIndex, content.set actualIndex block)
  | none =>
    if index.isSome then .error (invalid "stream delta has no matching content block")
    else .ok (content.length, content ++ [freshBlock text reasoning])

/-- The index of the block that an end closes. -/
def closeBlock (block : Option (String × ℕ)) (id : String) : Except ModelError (Option ℕ) :=
  match block with
  | some (opened, index) =>
    if opened = id then .ok (some index)
    else .error (invalid "stream block end does not match its start")
  | none => .ok none

def prependReasoningSummary (content : List Content) (index : ℕ) (summary : String) :
    Except ModelError (List Content) :=
  match content[index]? with
  | some (.other (.reasoning text metadata native)) =>
    .ok (content.set index (.other (.reasoning (summary ++ text) metadata native)))
  | _ => .error (invalid "reasoning summary has no matching content block")

namespace Collector

/-! ## Reasoning -/

def reasoningDelta (text : String) (sourceKind : Option ReasoningTextKind) (c : Collector) :
    Except ModelError Collector := do
  let (index, content) ← appendText c.content (c.reasoningBlock.map Prod.snd) "" true
  if sourceKind = some .summary then
    return { c with
      content
      reasoningSummaries := IndexMap.insert c.reasoningSummaries index
        (((IndexMap.get c.reasoningSummaries index).getD "") ++ text) }
  else
    let (_, content) ← appendText content (some index) text true
    return { c with content }

/-- Put the summary of a closed block in front. -/
def spliceSummary (index : Option ℕ) (c : Collector) : Except ModelError Collector :=
  match index with
  | none => .ok c
  | some index =>
    match IndexMap.get c.reasoningSummaries index with
    | none => .ok c
    | some summary => do
      let content ← prependReasoningSummary c.content index summary
      return { c with
        content, reasoningSummaries := IndexMap.erase c.reasoningSummaries index }

/-- Retain the native item of a closed block. -/
def saveNative (index : Option ℕ) (native : Option NativeReasoning) (c : Collector) :
    Except ModelError Collector :=
  match native with
  | none => .ok c
  | some native =>
    match index with
    | none => .error (invalid "native reasoning has no matching block")
    | some index =>
      match c.content[index]? with
      | some (.other (.reasoning text metadata _)) =>
        if visibleText native ≠ text then
          .error (invalid "native reasoning text differs from the observed block")
        else .ok { c with
          content := c.content.set index (.other (.reasoning text metadata (some native))) }
      | _ => .error (invalid "native reasoning has no matching block")

/-- Retain the signature of a closed block. -/
def saveSignature (index : Option ℕ) (signature : Option String) (c : Collector) :
    Except ModelError Collector :=
  match signature with
  | none => .ok c
  | some signature =>
    match index with
    | none => .error (invalid "reasoning signature has no matching block")
    | some index =>
      match c.content[index]? with
      | some (.other (.reasoning text metadata native)) =>
        let metadata := setProviderMetadata metadata "anthropic" "signature" (.string signature)
        .ok { c with content := c.content.set index (.other (.reasoning text metadata native)) }
      | _ => .error (invalid "reasoning signature has no matching block")

/-- **The end of a reasoning block.** -/
def reasoningEnd (id : String) (signature : Option String) (native : Option NativeReasoning)
    (c : Collector) : Except ModelError Collector := do
  let index ← closeBlock c.reasoningBlock id
  let c ← { c with reasoningBlock := none }.spliceSummary index
  let c ← c.saveNative index native
  c.saveSignature index signature

/-! ## Tool calls -/

/-- The index of the block of a call, which its first delta creates. -/
def openCall (id : String) (c : Collector) : ℕ × Collector :=
  match IndexMap.get c.toolIndices id with
  | some index => (index, c)
  | none => (c.content.length, { c with
      content := c.content ++ [.toolCall id "" "" false false []]
      toolIndices := IndexMap.insert c.toolIndices id c.content.length })

def mergeMetadata (current added : ProviderMetadata) : Except ModelError ProviderMetadata :=
  added.foldlM (fun metadata e => do
    ensure (¬ (IndexMap.get metadata e.1).any (fun existing => !existing.eqv e.2))
      (invalid "tool delta changed native call metadata")
    return IndexMap.insert metadata e.1 e.2) current

/-- Add a delta to the block of its call. -/
def extendCall (index : ℕ) (name : Option String) (arguments : String)
    (providerMetadata : ProviderMetadata) (c : Collector) : Except ModelError Collector :=
  match c.content[index]? with
  | some (.toolCall id currentName currentArguments executed dynamic currentMetadata) => do
    ensure (name.all (fun name => currentName = "" ∨ currentName = name))
      (invalid "tool delta changed the selected call name")
    let metadata ← mergeMetadata currentMetadata providerMetadata
    return { c with content := c.content.set index (.toolCall id (name.getD currentName)
      (currentArguments ++ arguments) executed dynamic metadata) }
  | _ => .error (invalid "tool delta has no matching call")

def toolCallDelta (id : String) (name : Option String) (arguments : String)
    (providerMetadata : ProviderMetadata) (c : Collector) : Except ModelError Collector :=
  let (index, c) := c.openCall id
  c.extendCall index name arguments providerMetadata

def serverMetadata (serverName : Option String) (dynamic : Bool) : ProviderMetadata :=
  if dynamic then
    let metadata := setProviderMetadata [] "anthropic" "type" (.string "mcp-tool-use")
    match serverName with
    | some serverName => setProviderMetadata metadata "anthropic" "serverName" (.string serverName)
    | none => metadata
  else []

/-! ## Parts -/

def push (block : Content) (c : Collector) : Collector :=
  { c with content := c.content ++ [block] }

def terminalReason (status : String) : Except ModelError FinishReason :=
  if status = "completed" then .ok .stop
  else if status = "incomplete" then .ok .length
  else .error (invalid "model stream has no successful terminal status")

/-- The completion of a Responses stream. -/
def responseCompleted (completion : ResponseCompletion) (reported : Option Usage) (c : Collector) :
    Except ModelError Collector := do
  ensure (c.responseId.all (fun started => started = completion.id))
    (invalid "terminal response id differs from the started response")
  let reason ← terminalReason completion.status
  return { c with
    finishReason := some reason
    responseId := some completion.id
    usage := reported.or c.usage }

/-- A part of a stream that has not ended, or a late report of usage. -/
def apply (c : Collector) : StreamPart → Except ModelError Collector
  | .other (.textStart id) =>
    .ok { c.push (.text "" []) with textBlock := some (id, c.content.length) }
  | .textDelta text => do
    let (_, content) ← appendText c.content (c.textBlock.map Prod.snd) text false
    return { c with content }
  | .other (.textEnd id) => do
    let _ ← closeBlock c.textBlock id
    return { c with textBlock := none }
  | .other (.reasoningStart id _) =>
    .ok { c.push (.other (.reasoning "" [] none)) with
      reasoningBlock := some (id, c.content.length) }
  | .other (.reasoningDelta text sourceKind) => c.reasoningDelta text sourceKind
  | .other (.reasoningEnd id signature native) => c.reasoningEnd id signature native
  | .toolCallDelta id name arguments providerMetadata =>
    c.toolCallDelta id name arguments providerMetadata
  | .serverToolCall id name arguments serverName dynamic =>
    .ok (c.push (.toolCall id name arguments true dynamic (serverMetadata serverName dynamic)))
  | .serverToolResult callId toolName output dynamic =>
    .ok (c.push (.toolResult callId toolName output dynamic []))
  | .other (.file mediaType data) => .ok (c.push (.other (.file mediaType data none [])))
  | .other (.source source) => .ok (c.push (.other (.source source [])))
  | .usage usage => .ok { c with usage := some usage }
  | .other (.responseStarted id _) => .ok { c with responseId := some id }
  | .finish reason => .ok { c with finishReason := some reason }
  | .responseCompleted completion usage => c.responseCompleted completion usage

def isUsage : StreamPart → Bool
  | .usage _ => true
  | _ => false

/-- **Observe one part.** After a terminal only usage may come. -/
def observe (c : Collector) (part : StreamPart) : Except ModelError Collector := do
  ensure (c.finishReason.isNone ∨ isUsage part = true)
    (invalid "model stream emitted content or another terminal after completion")
  c.apply part

/-- The summaries of the blocks that were not closed, put in front of them.
The source goes through a hash map, in some order. -/
def spliceAll (summaries : List (ℕ × String)) (content : List Content) :
    Except ModelError (List Content) :=
  summaries.foldlM (fun content e => prependReasoningSummary content e.1 e.2) content

/-- **The end of the stream.** -/
def finalize (c : Collector) : Except ModelError Collected := do
  ensure (c.finishReason.isSome = true) (invalid "model stream ended without a terminal part")
  let content ← spliceAll c.reasoningSummaries c.content
  return { content, usage := c.usage, finishReason := c.finishReason, responseId := c.responseId }

end Collector

/-- **Collect a stream** of parts and failures. A failure of the collector is
embedded in the failures of the stream. -/
def collectGenerate {ε : Type} (embed : ModelError → ε) (stream : List (Except ε StreamPart)) :
    Except ε Collected := do
  let c ← stream.foldlM (fun c item => do
    let part ← item
    (c.observe part).mapError embed) ({} : Collector)
  c.finalize.mapError embed

end BitRouter.Gateway
