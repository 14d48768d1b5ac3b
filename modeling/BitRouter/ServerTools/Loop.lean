import BitRouter.Ai.Types

/-!
# The server-side tool loop

`classify.rs`, `toolset.rs` and `loop_controller.rs`. The loop injects the
router's tools into a prompt and drives upstream turns: it executes the
calls of a turn when all of them are the router's, and stops when the turn
is an answer, when it has to be handed back to the caller, or when a bound
is hit.

The upstream is a script, the answers it gives in turn; past its end it
fails. A tool is a function of the calls executed before and of the call.
The clock is the time elapsed when the bound of a turn is checked. Beside
its result a run leaves the turns it took, each with the decision on it.
-/

namespace BitRouter.ServerTools

open Ai

/-! ## Classification -/

/-- One router-owned call of a turn. -/
structure RouterCall where
  id : String
  name : String
  arguments : String
  deriving DecidableEq, Repr

inductive TurnDisposition
  | done
  | handBack
  | execute (calls : List RouterCall)
  deriving DecidableEq, Repr

def pendingCall : Content → Option RouterCall
  | .toolCall id name arguments false _ _ => some ⟨id, name, arguments⟩
  | _ => none

/-- **Whose calls a turn makes**: a client-owned one hands the whole turn
back, otherwise the router-owned ones are executed. -/
def classifyTurn (content : List Content) (owned : List String) : TurnDisposition :=
  let calls := content.filterMap pendingCall
  if calls.any (fun c => c.name ∉ owned) then .handBack
  else if calls.isEmpty then .done
  else .execute calls

/-! ## Toolsets -/

/-- A set of tools the router advertises and executes, as one request sees
it. -/
structure RouterToolset where
  listTools : Except BitrouterError (List Tool)
  owns : String → Bool
  serverName : Option String := none

abbrev ToolsetRegistry := List RouterToolset

namespace ToolsetRegistry

/-- The advertised tools of every set, and the router-owned names. -/
def listAll (registry : ToolsetRegistry) : Except BitrouterError (List Tool × List String) := do
  let tools ← registry.mapM RouterToolset.listTools
  return (tools.flatten, tools.flatten.map Tool.name)

def resolve (registry : ToolsetRegistry) (name : String) : Option RouterToolset :=
  registry.find? (fun set => set.owns name)

end ToolsetRegistry

structure ServerToolLoopConfig where
  maxIterations : ℕ := 10
  /-- Wall-clock budget of the request, in nanoseconds. -/
  totalBudget : ℕ := 120000000000
  maxConsecutiveErrors : ℕ := 3

/-- How a tool answers one call. -/
inductive ToolOutcome
  | done (output : ToolResultOutput)
  | failed (error : BitrouterError)
  | timedOut

structure ServerToolLoop where
  registry : ToolsetRegistry
  config : ServerToolLoopConfig := {}
  /-- The approval policy, which may remember the calls executed before. -/
  allow : List RouterCall → RouterCall → Bool := fun _ _ => true
  /-- The tools, which may remember the calls executed before. -/
  callTool : List RouterCall → RouterCall → ToolOutcome

/-! ## Injection -/

/-- The final `:` or `.` segment of a name. -/
def toolTail (name : String) : String :=
  String.ofList (name.toList.reverse.takeWhile (fun c => c ≠ ':' ∧ c ≠ '.')).reverse

def isRedeclared (owned : List String) : Tool → Bool
  | .providerDefined _ name _ => toolTail name ∈ owned
  | .function _ _ => false

namespace ServerToolLoop

/-- The working prompt and the router-owned names of a request. A request
that forbids tools gets none. -/
def inject (l : ServerToolLoop) (base : Prompt) :
    Except BitrouterError (Prompt × List String) := do
  if base.toolChoice = some .none then return (base, [])
  else
    let (injected, owned) ← l.registry.listAll
    let tools := base.tools.filter (fun t => ¬ isRedeclared owned t)
    injected.forM (fun tool =>
      if tools.any (fun t => t.name = tool.name) then
        .error (.internal ("router tool name collides with a caller tool: " ++ tool.name))
      else .ok ())
    return ({ base with tools := tools ++ injected }, owned)

/-! ## Executing calls -/

def callOne (l : ServerToolLoop) (before : List RouterCall) (call : RouterCall) :
    ToolResultOutput × Bool :=
  if ¬ l.allow before call then
    (.executionDenied (some "denied by approval policy"), false)
  else
    match l.registry.resolve call.name with
    | none => (.errorText ("no toolset owns '" ++ call.name ++ "'"), true)
    | some _ =>
      match l.callTool before call with
      | .done output => (output, false)
      | .failed error => (.errorText error.display, true)
      | .timedOut => (.errorText ("tool '" ++ call.name ++ "' timed out"), true)

def executeCalls (l : ServerToolLoop) :
    List RouterCall → List RouterCall → List (RouterCall × ToolResultOutput × Bool)
  | _, [] => []
  | before, call :: calls =>
    (call, l.callOne before call) :: l.executeCalls (before ++ [call]) calls

end ServerToolLoop

/-- The result block of an executed call. -/
def resultContent (r : RouterCall × ToolResultOutput × Bool) : Content :=
  .toolResult r.1.id (some r.1.name) r.2.1 false []

/-- Whether a call of a turn failed. -/
def hadError (results : List (RouterCall × ToolResultOutput × Bool)) : Bool :=
  results.any (fun r => r.2.2)

/-! ## Records -/

/-- The record of a call the provider executed. -/
def providerRecord : Content → Option ServerToolCall
  | .toolCall id name _ true _ _ => some
    { name := name, kind := .provider, callId := some id, status := .ok, resultCount := 0 }
  | _ => none

def recordProviderCalls (out : List ServerToolCall) (content : List Content) :
    List ServerToolCall :=
  out ++ content.filterMap providerRecord

/-- The record of a call the router executed, under the error flag of its
turn. -/
def routerRecord (failed : Bool) (call : RouterCall) : ServerToolCall where
  name := call.name
  kind := .router
  callId := some call.id
  status := if failed then .error else .ok
  resultCount := 0

/-! ## The run -/

/-- What the pipeline produced. -/
inductive PipelineOutput
  | generation (result : GenerateResult)
  | decisions

/-- A result with its provenance. -/
structure ServerToolLoopOutcome where
  result : GenerateResult
  serverToolCalls : List ServerToolCall
  providerTerminalExposed : Bool

inductive Decision
  /-- The turn is the final answer. -/
  | answer
  /-- The turn goes back to the caller. -/
  | handBack
  /-- The turn's calls are not executed: the iteration or time bound. -/
  | bound
  /-- The turn's calls are executed. -/
  | execute (calls : List RouterCall) (failed : Bool)
  deriving DecidableEq, Repr

structure LoopState where
  working : Prompt
  total : Usage := {}
  hadUsage : Bool := false
  consecutiveErrors : ℕ := 0
  rounds : ℕ := 0
  serverCalls : List ServerToolCall := []
  /-- The calls executed so far, which tools may depend on. -/
  executed : List RouterCall := []

/-- Fold the usage of a turn into the state. -/
def LoopState.observe (s : LoopState) : Option Usage → LoopState
  | none => s
  | some usage => { s with total := addUsage s.total usage, hadUsage := true }

def LoopState.withUsage (s : LoopState) (g : GenerateResult) : GenerateResult :=
  if s.hadUsage then { g with usage := some s.total } else g

/-- A reply cut short at a bound. -/
def LoopState.truncate (s : LoopState) (g : GenerateResult) (reason : String) : GenerateResult :=
  { s.withUsage g with finishReason := some (.other reason) }

def appendTurn (working : Prompt) (assistant results : List Content) : Prompt :=
  { working with messages := working.messages ++ [⟨.assistant, assistant⟩, ⟨.tool, results⟩] }

/-- What one turn leads to. -/
inductive Step (σ ω : Type)
  | again (s : σ)
  | stop (outcome : ω)

namespace ServerToolLoop

def afterCalls (l : ServerToolLoop) (s : LoopState) (content : List Content)
    (calls : List RouterCall) : LoopState :=
  let results := l.executeCalls s.executed calls
  let failed := hadError results
  { s with
    working := appendTurn s.working content (results.map resultContent)
    consecutiveErrors := if failed then s.consecutiveErrors + 1 else 0
    rounds := s.rounds + 1
    serverCalls := recordProviderCalls s.serverCalls content ++ calls.map (routerRecord failed)
    executed := s.executed ++ calls }

/-- Whether no further round may run. -/
def AtBound (l : ServerToolLoop) (elapsed : ℕ → ℕ) (rounds : ℕ) : Prop :=
  l.config.maxIterations ≤ rounds ∨ l.config.totalBudget ≤ elapsed rounds

instance (l : ServerToolLoop) (elapsed : ℕ → ℕ) (rounds : ℕ) :
    Decidable (l.AtBound elapsed rounds) := inferInstanceAs (Decidable (_ ∨ _))

/-- **One turn of the loop**, on the reply of the upstream: the decision and
what follows from it. -/
def turn (l : ServerToolLoop) (owned : List String) (elapsed : ℕ → ℕ) (s : LoopState)
    (g : GenerateResult) : Decision × Step LoopState ServerToolLoopOutcome :=
  let s := s.observe g.usage
  match classifyTurn g.content owned with
  | .done =>
    (.answer, .stop ⟨s.withUsage g, recordProviderCalls s.serverCalls g.content, true⟩)
  | .handBack =>
    (.handBack, .stop ⟨s.withUsage g, recordProviderCalls s.serverCalls g.content, true⟩)
  | .execute calls =>
    if l.AtBound elapsed s.rounds then
      (.bound, .stop ⟨s.truncate g "max_tool_iterations", s.serverCalls, false⟩)
    else
      let s' := l.afterCalls s g.content calls
      (.execute calls (hadError (l.executeCalls s.executed calls)),
        if l.config.maxConsecutiveErrors ≤ s'.consecutiveErrors then
          .stop ⟨s'.truncate g "tool_errors", s'.serverCalls, false⟩
        else .again s')

section Turn

variable {l : ServerToolLoop} {owned : List String} {elapsed : ℕ → ℕ} {s : LoopState}
  {g : GenerateResult}

theorem turn_done (h : classifyTurn g.content owned = .done) :
    l.turn owned elapsed s g = (.answer, .stop ⟨(s.observe g.usage).withUsage g,
      recordProviderCalls (s.observe g.usage).serverCalls g.content, true⟩) := by
  simp only [turn, h]

theorem turn_handBack (h : classifyTurn g.content owned = .handBack) :
    l.turn owned elapsed s g = (.handBack, .stop ⟨(s.observe g.usage).withUsage g,
      recordProviderCalls (s.observe g.usage).serverCalls g.content, true⟩) := by
  simp only [turn, h]

theorem turn_bound {calls : List RouterCall} (h : classifyTurn g.content owned = .execute calls)
    (hbound : l.AtBound elapsed (s.observe g.usage).rounds) :
    l.turn owned elapsed s g = (.bound, .stop
      ⟨(s.observe g.usage).truncate g "max_tool_iterations", (s.observe g.usage).serverCalls,
        false⟩) := by
  simp only [turn, h, if_pos hbound]

theorem turn_execute {calls : List RouterCall} (h : classifyTurn g.content owned = .execute calls)
    (hbound : ¬ l.AtBound elapsed (s.observe g.usage).rounds) :
    l.turn owned elapsed s g =
      (.execute calls (hadError (l.executeCalls (s.observe g.usage).executed calls)),
        if l.config.maxConsecutiveErrors
            ≤ (l.afterCalls (s.observe g.usage) g.content calls).consecutiveErrors then
          .stop ⟨(l.afterCalls (s.observe g.usage) g.content calls).truncate g "tool_errors",
            (l.afterCalls (s.observe g.usage) g.content calls).serverCalls, false⟩
        else .again (l.afterCalls (s.observe g.usage) g.content calls)) := by
  simp only [turn, h, if_neg hbound]

end Turn

end ServerToolLoop

@[simp] theorem LoopState.observe_serverCalls (s : LoopState) (u : Option Usage) :
    (s.observe u).serverCalls = s.serverCalls := by cases u <;> rfl

structure Run where
  turns : List (List Content × Decision)
  result : Except BitrouterError ServerToolLoopOutcome

def scriptEnd : BitrouterError := .other "upstream error"

namespace ServerToolLoop

/-- The loop over the answers of the upstream. -/
def runLoop (l : ServerToolLoop) (owned : List String) (elapsed : ℕ → ℕ) :
    LoopState → List (Except BitrouterError PipelineOutput) → Run
  | _, [] => ⟨[], .error scriptEnd⟩
  | _, .error e :: _ => ⟨[], .error e⟩
  | _, .ok .decisions :: _ =>
    ⟨[], .error (.internal "server tool loop requires a generation result")⟩
  | s, .ok (.generation g) :: script =>
    match l.turn owned elapsed s g with
    | (d, .stop outcome) => ⟨[(g.content, d)], .ok outcome⟩
    | (d, .again s') =>
      let rest := l.runLoop owned elapsed s' script
      ⟨(g.content, d) :: rest.turns, rest.result⟩

/-- **The whole run** of a request. -/
def runWithProvenance (l : ServerToolLoop) (elapsed : ℕ → ℕ) (base : Prompt)
    (script : List (Except BitrouterError PipelineOutput)) : Run :=
  match l.inject base with
  | .error e => ⟨[], .error e⟩
  | .ok (working, owned) => l.runLoop owned elapsed { working := working } script

end ServerToolLoop

def searchLoop : ServerToolLoop where
  registry := [{ listTools := .ok [.function "search" .null], owns := fun n => n = "search" }]
  callTool := fun _ _ => .done (.text "found")

end BitRouter.ServerTools
