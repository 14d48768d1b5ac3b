import BitRouter.ServerTools.Loop

/-!
# The streaming stitcher

`stream.rs`: the tool loop over streamed upstream turns, merged into one
stream for the caller. Of each upstream stream the narration is forwarded as
it arrives, while tool-call deltas are buffered and usage and terminal are
held back. When the stream ends, the buffered calls decide what the turn is;
what the caller sees of it is the handed-back calls, the executed calls with
their results, or nothing.

The upstream is a script again, each answer a stream of parts in which any
item may be a failure.
-/

namespace BitRouter.ServerTools

open Ai

/-- A call reconstructed from its deltas. -/
structure BufferedCall where
  id : String
  name : String
  args : String
  providerMetadata : ProviderMetadata

structure CallDelta where
  id : String
  name : Option String
  arguments : String
  providerMetadata : ProviderMetadata

def CallDelta.open (d : CallDelta) : BufferedCall :=
  ⟨d.id, d.name.getD "", d.arguments, d.providerMetadata⟩

/-- The name a delta brings, unless it is empty. -/
def CallDelta.newName (d : CallDelta) : Option String := d.name.filter (· ≠ "")

/-- Fold a further delta into the call of its id. -/
def BufferedCall.push (b : BufferedCall) (d : CallDelta) : BufferedCall where
  id := b.id
  name := d.newName.getD b.name
  args := b.args ++ d.arguments
  providerMetadata := b.providerMetadata.extend d.providerMetadata

def bufferDelta (d : CallDelta) : List BufferedCall → List BufferedCall
  | [] => [d.open]
  | b :: bs => if b.id = d.id then b.push d :: bs else b :: bufferDelta d bs

/-- The usage of one stream, without a pricing snapshot: the last one. -/
structure UsageAccumulator where
  usage : Usage := {}
  seen : Bool := false

def UsageAccumulator.observe (_ : UsageAccumulator) (usage : Usage) : UsageAccumulator :=
  ⟨usage, true⟩

def UsageAccumulator.finalized (a : UsageAccumulator) : Option Usage :=
  if a.seen then some a.usage else none

/-- What is held back of an upstream stream. -/
structure StreamTurn where
  buffered : List BufferedCall := []
  assistantText : String := ""
  finish : Option FinishReason := none
  responseCompletion : Option ResponseCompletion := none
  turnUsage : UsageAccumulator := {}

/-- One part of an upstream stream: what is held back of it and what is
forwarded. -/
def StreamTurn.observe (t : StreamTurn) : StreamPart → StreamTurn × List StreamPart
  | .usage usage => ({ t with turnUsage := t.turnUsage.observe usage }, [])
  | .finish reason => ({ t with finish := some reason }, [])
  | .responseCompleted completion usage =>
    ({ t with
        turnUsage := match usage with
          | some u => t.turnUsage.observe u
          | none => t.turnUsage
        finish := t.finish.or (some .stop)
        responseCompletion := some completion }, [])
  | .toolCallDelta id name arguments metadata =>
    ({ t with buffered := bufferDelta ⟨id, name, arguments, metadata⟩ t.buffered }, [])
  | .textDelta text => ({ t with assistantText := t.assistantText ++ text }, [.textDelta text])
  | part => (t, [part])

/-- Drain an upstream stream, forwarding until it ends or fails. -/
def consume : StreamTurn → List (Except BitrouterError StreamPart) →
    List StreamPart × Except BitrouterError StreamTurn
  | t, [] => ([], .ok t)
  | _, .error e :: _ => ([], .error e)
  | t, .ok part :: items =>
    let rest := consume (t.observe part).1 items
    ((t.observe part).2 ++ rest.1, rest.2)

namespace StreamTurn

/-- The calls whose name arrived. -/
def named (t : StreamTurn) : List BufferedCall := t.buffered.filter (fun b => b.name ≠ "")

/-- A call the loop executes itself. -/
def isRouter (owned : List String) (b : BufferedCall) : Bool :=
  b.name ∈ owned ∧ b.providerMetadata.isEmpty

def hasClient (t : StreamTurn) (owned : List String) : Bool :=
  t.named.any (fun b => ¬ isRouter owned b)

def routerCalls (t : StreamTurn) (owned : List String) : List RouterCall :=
  (t.named.filter (isRouter owned)).map (fun b => ⟨b.id, b.name, b.args⟩)

def terminal (t : StreamTurn) : StreamPart :=
  match t.responseCompletion with
  | some completion => .responseCompleted completion none
  | none => .finish (t.finish.getD .stop)

def assistantContent (t : StreamTurn) (calls : List RouterCall) : List Content :=
  (if t.assistantText = "" then [] else [.text t.assistantText []])
    ++ calls.map (fun c => .toolCall c.id c.name c.arguments false false [])

end StreamTurn

def BufferedCall.delta (b : BufferedCall) : StreamPart :=
  .toolCallDelta b.id (some b.name) b.args b.providerMetadata

structure StreamState where
  working : Prompt
  total : Usage := {}
  hadUsage : Bool := false
  rounds : ℕ := 0
  consecutiveErrors : ℕ := 0
  /-- The calls executed so far, which tools may depend on. -/
  executed : List RouterCall := []

def StreamState.observe (s : StreamState) : Option Usage → StreamState
  | none => s
  | some usage => { s with total := addUsage s.total usage, hadUsage := true }

/-- The accumulated usage, if any was seen. -/
def StreamState.usage (s : StreamState) : Option Usage :=
  if s.hadUsage then some s.total else none

structure Closing where
  usage : Option Usage
  terminal : StreamPart

def Closing.parts (c : Closing) : List StreamPart :=
  (c.usage.map StreamPart.usage).toList ++ [c.terminal]

namespace ServerToolLoop

/-- The MCP server of the set that owns a tool. -/
def serverNameFor (l : ServerToolLoop) (name : String) : Option String :=
  (l.registry.resolve name).bind RouterToolset.serverName

def activity (l : ServerToolLoop) (r : RouterCall × ToolResultOutput × Bool) :
    List StreamPart :=
  [.serverToolCall r.1.id r.1.name r.1.arguments (l.serverNameFor r.1.name) true,
    .serverToolResult r.1.id (some r.1.name) r.2.1 true]

def afterStreamCalls (l : ServerToolLoop) (s : StreamState) (t : StreamTurn)
    (calls : List RouterCall) : StreamState :=
  let results := l.executeCalls s.executed calls
  { s with
    working := appendTurn s.working (t.assistantContent calls) (results.map resultContent)
    rounds := s.rounds + 1
    consecutiveErrors := if hadError results then s.consecutiveErrors + 1 else 0
    executed := s.executed ++ calls }

/-- **The end of an upstream stream**: the decision on the turn, what the
caller sees of it, and what follows. -/
def closeTurn (l : ServerToolLoop) (owned : List String) (elapsed : ℕ → ℕ) (s : StreamState)
    (t : StreamTurn) : Decision × List StreamPart × Step StreamState Closing :=
  let s := s.observe t.turnUsage.finalized
  let calls := t.routerCalls owned
  if t.hasClient owned then
    (.handBack, t.named.map BufferedCall.delta, .stop ⟨s.usage, t.terminal⟩)
  else if calls.isEmpty then
    (.answer, [], .stop ⟨s.usage, t.terminal⟩)
  else if l.AtBound elapsed s.rounds then
    (.bound, [], .stop ⟨s.usage, .finish (.other "max_tool_iterations")⟩)
  else
    let results := l.executeCalls s.executed calls
    let s' := l.afterStreamCalls s t calls
    (.execute calls (hadError results), results.flatMap l.activity,
      if l.config.maxConsecutiveErrors ≤ s'.consecutiveErrors then
        .stop ⟨s'.usage, .finish (.other "tool_errors")⟩
      else .again s')

end ServerToolLoop

/-- An upstream stream the run opened, with the decision on it, if it did
not fail, and the parts the loop emitted after it. -/
structure StreamedTurn where
  stream : List (Except BitrouterError StreamPart)
  decision : Option Decision
  emitted : List StreamPart

structure StreamRun where
  turns : List StreamedTurn
  items : List (Except BitrouterError StreamPart)

variable {parts : List StreamPart}

namespace ServerToolLoop

/-- The merged stream over the answers of the upstream. -/
def streamLoop (l : ServerToolLoop) (owned : List String) (elapsed : ℕ → ℕ) : StreamState →
    List (Except BitrouterError (List (Except BitrouterError StreamPart))) → StreamRun
  | _, [] => ⟨[], [.error scriptEnd]⟩
  | _, .error e :: _ => ⟨[], [.error e]⟩
  | s, .ok stream :: script =>
    match consume {} stream with
    | (forwarded, .error e) => ⟨[⟨stream, none, []⟩], forwarded.map .ok ++ [.error e]⟩
    | (forwarded, .ok t) =>
      match l.closeTurn owned elapsed s t with
      | (d, emitted, .stop closing) =>
        ⟨[⟨stream, some d, emitted⟩], (forwarded ++ emitted ++ closing.parts).map .ok⟩
      | (d, emitted, .again s') =>
        let rest := l.streamLoop owned elapsed s' script
        ⟨⟨stream, some d, emitted⟩ :: rest.turns, (forwarded ++ emitted).map .ok ++ rest.items⟩

section StreamLoop

variable {l : ServerToolLoop} {owned : List String} {elapsed : ℕ → ℕ} {s : StreamState}
  {stream : List (Except BitrouterError StreamPart)}
  {script : List (Except BitrouterError (List (Except BitrouterError StreamPart)))}

theorem streamLoop_failed {e : BitrouterError} (h : consume {} stream = (parts, .error e)) :
    l.streamLoop owned elapsed s (.ok stream :: script) =
      ⟨[⟨stream, none, []⟩], parts.map .ok ++ [.error e]⟩ := by
  rw [streamLoop, h]

theorem streamLoop_stop {emitted : List StreamPart} {t : StreamTurn} {d : Decision}
    {closing : Closing} (h : consume {} stream = (parts, .ok t))
    (hclose : l.closeTurn owned elapsed s t = (d, emitted, .stop closing)) :
    l.streamLoop owned elapsed s (.ok stream :: script) =
      ⟨[⟨stream, some d, emitted⟩], (parts ++ emitted ++ closing.parts).map .ok⟩ := by
  rw [streamLoop, h]
  dsimp only
  rw [hclose]

theorem streamLoop_again {emitted : List StreamPart} {t : StreamTurn} {d : Decision}
    {s' : StreamState} (h : consume {} stream = (parts, .ok t))
    (hclose : l.closeTurn owned elapsed s t = (d, emitted, .again s')) :
    l.streamLoop owned elapsed s (.ok stream :: script) =
      ⟨⟨stream, some d, emitted⟩ :: (l.streamLoop owned elapsed s' script).turns,
        (parts ++ emitted).map .ok ++ (l.streamLoop owned elapsed s' script).items⟩ := by
  rw [streamLoop, h]
  dsimp only
  rw [hclose]

end StreamLoop

/-- **The whole streaming run** of a request. The first upstream stream is
opened before there is a stream to return. -/
def runStream (l : ServerToolLoop) (elapsed : ℕ → ℕ) (base : Prompt)
    (script : List (Except BitrouterError (List (Except BitrouterError StreamPart)))) :
    Except BitrouterError StreamRun := do
  let (working, owned) ← l.inject base
  match script with
  | [] => .error scriptEnd
  | .error e :: _ => .error e
  | _ => return l.streamLoop owned elapsed { working := working } script

end ServerToolLoop

end BitRouter.ServerTools
