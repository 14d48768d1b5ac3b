import BitRouter.Registry.Value
import BitRouter.Tenancy.Identity

/-!
# Execution facts

The contract of `execution.rs`: the usage of an attempt, an attempt with its
target and its native counters, and what is known of a dispatch. What a value
is accepted by is a check that names what it is about (`require`), and a
document is bounded by its length in bytes.
-/

namespace BitRouter.Tenancy

open Registry (Value)

/-! ## Values -/

/-- Where quantities come from. -/
inductive Provenance
  | provider
  | estimated
  | unknown
  deriving DecidableEq, Repr

/-- Token evidence; a dimension that was not observed is absent. -/
structure Usage where
  inputTokens : Option ℕ
  outputTokens : Option ℕ
  cacheReadTokens : Option ℕ
  cacheWriteTokens : Option ℕ
  reasoningTokens : Option ℕ
  provenance : Provenance
  /-- Whether every dimension has provider evidence. -/
  complete : Bool
  deriving DecidableEq, Repr

structure Target where
  providerId : ProviderId
  modelId : String
  accountId : AccountId
  credentialId : CredentialId
  credentialVersion : RevisionId
  deriving DecidableEq

inductive UsageDimension
  | inputTokens
  | outputTokens
  | cacheReadTokens
  | cacheWriteTokens
  | reasoningTokens
  deriving DecidableEq, Repr

/-- One native counter. -/
structure NumericUsage where
  name : UsageDimension
  value : ℕ
  deriving DecidableEq, Repr

/-- The observed result of an invocation or an attempt. -/
inductive Outcome
  | completed
  | failed
  | cancelled
  | unknown
  deriving DecidableEq, Repr

/-- One provider attempt. -/
structure Attempt where
  attemptId : AttemptId
  target : Option Target
  outcome : Outcome
  usage : Usage
  nativeUsage : List NumericUsage
  deriving DecidableEq

/-- What is known of the work a dispatch has started. -/
inductive DispatchState
  | notStarted
  | started
  | unknown
  deriving DecidableEq, Repr

/-! ## Documents -/

/-- A counter of a document. -/
def count (n : ℕ) : Value := .number (Nat.repr n)

/-- An optional member, null where it is absent. -/
def nullable {α : Type} (f : α → Value) (o : Option α) : Value := (o.map f).getD .null

def Identifier.toJson (id : Identifier) : Value := .string id.text

/-! ## Validation -/

abbrev Validation := Except ValidationError Unit

def require (condition : Prop) [Decidable condition] (message : String) : Validation :=
  ensure condition ⟨message⟩

/-- The length of a document in bytes. -/
def byteLength (document : Value) : ℕ := document.render.utf8ByteSize

end BitRouter.Tenancy
