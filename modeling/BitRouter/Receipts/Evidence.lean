import BitRouter.Data.Json
import BitRouter.Tenancy.Execution

/-!
# Presence-aware usage

`evidence.rs`: the accumulator of the usage objects a provider reports for
one attempt, and its projection to the usage of the attempt. A field that is
absent stays absent, a malformed or contradicted one is invalid from then
on, and whatever makes the evidence less than complete latches `incomplete`.
-/

namespace BitRouter.Receipts

open Tenancy

/-- The protocol of an outbound request. -/
inductive Protocol
  | chatCompletions
  | responses
  | messages
  | decisions
  deriving DecidableEq, Repr

inductive Counter
  | absent
  | known (value : ℕ)
  | invalid
  deriving DecidableEq, Repr

def Counter.value : Counter → Option ℕ
  | known value => some value
  | _ => none

/-- Which provider protocol the evidence comes from. -/
inductive Source
  | none
  | provider (protocol : Protocol)
  | conflict
  deriving DecidableEq, Repr

/-- Bound on the usage objects of one attempt. -/
def maxObservations : ℕ := 1024

/-- **The usage evidence of one attempt.** The counters are input, output,
cache read, cache write and reasoning; the total is a consistency
constraint, not a dimension. -/
structure Evidence where
  source : Source := .none
  counters : Fin 5 → Counter := fun _ => .absent
  total : Counter := .absent
  observations : ℕ := 0
  incomplete : Bool := false

/-- A counter of a usage object. -/
def number (value : Json) : Option ℕ := value.asU64.filter (fun n => n ≤ maxInteger)

namespace Evidence

def markIncomplete (e : Evidence) : Evidence := { e with incomplete := true }

def setCounter (e : Evidence) (index : Fin 5) (counter : Counter) : Evidence :=
  { e with counters := Function.update e.counters index counter }

/-- One field of a usage object. Only Messages counts up. -/
def field (index : Fin 5) (value : Option Json) (protocol : Protocol) (e : Evidence) : Evidence :=
  match value with
  | none => e
  | some value =>
    match number value with
    | none => (e.setCounter index .invalid).markIncomplete
    | some n =>
      match e.counters index with
      | .absent => e.setCounter index (.known n)
      | .known previous =>
        if previous = n ∨ (protocol = .messages ∧ previous ≤ n) then e.setCounter index (.known n)
        else (e.setCounter index .invalid).markIncomplete
      | .invalid => (e.setCounter index .invalid).markIncomplete

/-- An object has a member of an unknown name. -/
def hasUnknown (object : List (String × Json)) (known : List String) : Bool :=
  object.length > known.length || object.any (fun e => e.1 ∉ known)

/-- A details object of a usage object. -/
def details (raw : Option Json) (fields : List (String × Fin 5)) (protocol : Protocol)
    (e : Evidence) : Evidence :=
  match raw with
  | none => e
  | some raw =>
    match raw.asObject with
    | none => (fields.foldl (fun e f => e.setCounter f.2 .invalid) e).markIncomplete
    | some object =>
      let e := fields.foldl (fun e f => e.field f.2 (IndexMap.get object f.1) protocol) e
      if hasUnknown object (fields.map Prod.fst) then e.markIncomplete else e

def knownKeys (object : List (String × Json)) (known : List String) (e : Evidence) : Evidence :=
  if hasUnknown object known then e.markIncomplete else e

/-- The total of a usage object, and the relation it has to satisfy. -/
def observeTotal (raw : Option Json) (e : Evidence) : Evidence :=
  let total :=
    match raw with
    | none => e.total
    | some raw =>
      match number raw, e.total with
      | some value, .absent => .known value
      | some value, .known previous => if value = previous then .known value else .invalid
      | _, _ => .invalid
  let total :=
    match total.value, (e.counters 0).value, (e.counters 1).value with
    | some t, some input, some output => if input + output = t then total else .invalid
    | _, _, _ => total
  let e := { e with total }
  if total = .invalid then e.markIncomplete else e

def fieldNames : Protocol → String × String × String × String
  | .chatCompletions =>
    ("prompt_tokens", "completion_tokens", "prompt_tokens_details", "completion_tokens_details")
  | .messages => ("input_tokens", "output_tokens", "", "")
  | _ => ("input_tokens", "output_tokens", "input_tokens_details", "output_tokens_details")

/-- The fields of a usage object. -/
def observeObject (protocol : Protocol) (object : List (String × Json)) (e : Evidence) :
    Evidence :=
  let (input, output, inputDetails, outputDetails) := fieldNames protocol
  let e := e.field 0 (IndexMap.get object input) protocol
  let e := e.field 1 (IndexMap.get object output) protocol
  if protocol = .messages then
    let e := e.field 2 (IndexMap.get object "cache_read_input_tokens") protocol
    let e := e.field 3 (IndexMap.get object "cache_creation_input_tokens") protocol
    e.knownKeys object
      ["input_tokens", "output_tokens", "cache_read_input_tokens", "cache_creation_input_tokens"]
  else
    let e := e.details (IndexMap.get object inputDetails)
      [("cached_tokens", 2), ("cache_write_tokens", 3)] protocol
    let e := e.details (IndexMap.get object outputDetails) [("reasoning_tokens", 4)] protocol
    let e := e.knownKeys object [input, output, "total_tokens", inputDetails, outputDetails]
    e.observeTotal (IndexMap.get object "total_tokens")

def nextSource (protocol : Protocol) : Source → Source
  | .none => .provider protocol
  | .provider previous => if previous = protocol then .provider previous else .conflict
  | .conflict => .conflict

/-- **Observe one usage object.** -/
def observe (protocol : Protocol) (raw : Json) (e : Evidence) : Evidence :=
  if maxObservations ≤ e.observations then e.markIncomplete
  else
    let e := { e with observations := e.observations + 1, source := nextSource protocol e.source }
    match raw.asObject with
    | none => e.markIncomplete
    | some object => e.observeObject protocol object

end Evidence

/-! ## Incompleteness is latched -/

namespace Evidence

variable {e : Evidence}

theorem incomplete_field (index : Fin 5) (value : Option Json) (protocol : Protocol)
    (h : e.incomplete = true) : (e.field index value protocol).incomplete = true := by
  unfold field
  split
  · exact h
  · split
    · rfl
    · split
      · exact h
      · split
        · exact h
        · rfl
      · rfl

theorem incomplete_foldl {α : Type} (f : Evidence → α → Evidence)
    (hf : ∀ e x, e.incomplete = true → (f e x).incomplete = true) (xs : List α)
    (h : e.incomplete = true) : (xs.foldl f e).incomplete = true := by
  induction xs generalizing e with
  | nil => exact h
  | cons x xs ih => exact ih (hf e x h)

theorem incomplete_details (raw : Option Json) (fields : List (String × Fin 5))
    (protocol : Protocol) (h : e.incomplete = true) :
    (e.details raw fields protocol).incomplete = true := by
  unfold details
  split
  · exact h
  · split
    · rfl
    · dsimp only
      split
      · rfl
      · exact incomplete_foldl _ (fun e f h => incomplete_field f.2 _ protocol h) fields h

theorem incomplete_knownKeys (object : List (String × Json)) (known : List String)
    (h : e.incomplete = true) : (e.knownKeys object known).incomplete = true := by
  unfold knownKeys
  split
  · rfl
  · exact h

theorem incomplete_observeTotal (raw : Option Json) (h : e.incomplete = true) :
    (e.observeTotal raw).incomplete = true := by
  have hset : ∀ total, (if total = Counter.invalid then ({ e with total } : Evidence).markIncomplete
      else { e with total }).incomplete = true := by
    intro total
    split
    · rfl
    · exact h
  exact hset _

theorem incomplete_observeObject (protocol : Protocol) (object : List (String × Json))
    (h : e.incomplete = true) : (e.observeObject protocol object).incomplete = true := by
  unfold observeObject
  dsimp only
  split
  · exact incomplete_knownKeys _ _ (incomplete_field _ _ _ (incomplete_field _ _ _
      (incomplete_field _ _ _ (incomplete_field _ _ _ h))))
  · exact incomplete_observeTotal _ (incomplete_knownKeys _ _ (incomplete_details _ _ _
      (incomplete_details _ _ _ (incomplete_field _ _ _ (incomplete_field _ _ _ h)))))

/-- **Evidence once incomplete stays so.** -/
theorem incomplete_observe (protocol : Protocol) (raw : Json) (h : e.incomplete = true) :
    (e.observe protocol raw).incomplete = true := by
  unfold observe
  split
  · rfl
  · dsimp only
    split
    · rfl
    · exact incomplete_observeObject _ _ h

end Evidence

/-! ## Projection -/

/-- `u64::checked_add`. -/
def checkedAdd (a b : ℕ) : Option ℕ := if a + b < 2 ^ 64 then some (a + b) else none

/-- The five quantities of a usage. -/
structure Quantities where
  input : Option ℕ
  output : Option ℕ
  cacheRead : Option ℕ
  cacheWrite : Option ℕ
  reasoning : Option ℕ

def Quantities.none : Quantities := ⟨.none, .none, .none, .none, .none⟩

def Quantities.toList (q : Quantities) : List (Option ℕ) :=
  [q.input, q.output, q.cacheRead, q.cacheWrite, q.reasoning]

/-- The usage of given quantities. -/
def usage (values : Quantities) (provenance : Provenance) (complete : Bool) : Usage where
  inputTokens := values.input
  outputTokens := values.output
  cacheReadTokens := values.cacheRead
  cacheWriteTokens := values.cacheWrite
  reasoningTokens := values.reasoning
  provenance := provenance
  complete := complete && provenance = .provider && values.toList.all Option.isSome

/-- The dimensions of the counters. -/
def dimensions : List (UsageDimension × Fin 5) :=
  [(.inputTokens, 0), (.outputTokens, 1), (.cacheReadTokens, 2), (.cacheWriteTokens, 3),
    (.reasoningTokens, 4)]

/-- The usage of an attempt and its native counters. -/
structure Projection where
  usage : Usage
  nativeUsage : List NumericUsage

namespace Evidence

def isProvider (e : Evidence) : Bool :=
  match e.source with
  | .provider _ => true
  | _ => false

def nativeUsage (e : Evidence) : List NumericUsage :=
  if e.isProvider then
    dimensions.filterMap (fun d => (e.counters d.2).value.map (fun value => ⟨d.1, value⟩))
  else []

def counted (e : Evidence) : Quantities where
  input := (e.counters 0).value
  output := (e.counters 1).value
  cacheRead := (e.counters 2).value
  cacheWrite := (e.counters 3).value
  reasoning := (e.counters 4).value

/-- The input of Messages leaves the cache buckets out; the projected one
includes them, and is absent where one of them is. -/
def inclusive (e : Evidence) (q : Quantities) : Quantities :=
  if e.source = .provider .messages then
    { q with input := do
        let sum ← checkedAdd (← q.input) (← q.cacheRead)
        (checkedAdd sum (← q.cacheWrite)).filter (fun n => n ≤ maxInteger) }
  else q

/-- Whether the cache buckets exceed the input. -/
def cacheExceeds (q : Quantities) : Bool :=
  match q.input with
  | none => false
  | some input =>
    match q.cacheRead, q.cacheWrite with
    | some r, some w => (checkedAdd r w).all (fun cache => input < cache)
    | some cache, none => input < cache
    | none, some cache => input < cache
    | none, none => false

/-- Whether the reasoning exceeds the output. -/
def reasoningExceeds (q : Quantities) : Bool :=
  match q.output, q.reasoning with
  | some output, some reasoning => output < reasoning
  | _, _ => false

/-- Quantities that contradict each other are withdrawn, and the usage is
then not complete. -/
def consistent (e : Evidence) (q : Quantities) (complete : Bool) : Quantities × Bool :=
  let (q, complete) :=
    if cacheExceeds q then ({ q with input := none, cacheRead := none, cacheWrite := none }, false)
    else (q, complete)
  let (q, complete) :=
    if reasoningExceeds q then ({ q with output := none, reasoning := none }, false)
    else (q, complete)
  if e.total = .invalid then ({ q with input := none, output := none }, false) else (q, complete)

def provenance (e : Evidence) : Provenance :=
  if e.isProvider ∧ e.counted.toList.any Option.isSome then .provider else .unknown

/-- **The usage the evidence supports.** -/
def project (e : Evidence) : Projection :=
  let (values, complete) := e.consistent (e.inclusive e.counted) (!e.incomplete)
  let values := if e.provenance = .unknown then Quantities.none else values
  { usage := usage values e.provenance complete, nativeUsage := e.nativeUsage }

end Evidence

namespace Evidence

theorem complete_project {e : Evidence} (h : e.incomplete = true) :
    e.project.usage.complete = false := by
  have hfalse : (e.consistent (e.inclusive e.counted) (!e.incomplete)).2 = false := by
    rw [h]
    unfold consistent
    dsimp only
    split <;> split <;> split <;> rfl
  simp only [project, usage, hfalse, Bool.false_and]

end Evidence

/-! ## Totals -/

/-- A running total; one absent dimension makes the total absent. -/
def addTotal (total next : Option ℕ) : Option ℕ := do
  (checkedAdd (← total) (← next)).filter (fun n => n ≤ maxInteger)

/-- **The totals of all attempts**, unknown if one of them is. -/
def aggregate (attempts : List Attempt) : Usage :=
  if attempts = [] ∨ 8 < attempts.length
      ∨ attempts.any (fun a => a.usage.provenance = .unknown) then
    usage Quantities.none .unknown false
  else
    let total (f : Usage → Option ℕ) : Option ℕ :=
      attempts.foldl (fun total a => addTotal total (f a.usage)) (some 0)
    usage ⟨total (·.inputTokens), total (·.outputTokens), total (·.cacheReadTokens),
        total (·.cacheWriteTokens), total (·.reasoningTokens)⟩
      (if attempts.any (fun a => a.usage.provenance = .estimated) then .estimated else .provider)
      (attempts.all (fun a => a.usage.complete))

end BitRouter.Receipts
