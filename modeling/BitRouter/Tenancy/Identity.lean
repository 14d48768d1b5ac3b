import Mathlib.Data.List.Basic
import Mathlib.Tactic.Common

/-!
# Identities

The identifiers of `identity.rs`. Every one of them is a short ASCII text of
a fixed alphabet, which the type carries, and the revisions and counters of
the contract are integers every JSON client represents exactly.
-/

namespace BitRouter.Tenancy

def identifierChar (c : Char) : Bool :=
  c.isAlphanum || c ∈ ['.', '_', ':', '-']

/-- **The syntax of an identifier**: at most 128 ASCII characters of the
alphabet, the first of them a letter or a digit. -/
def identifierSyntax (value : String) : Bool :=
  value.toList.length ≤ 128 && value.toList.head?.any Char.isAlphanum
    && value.toList.all identifierChar

/-- **A validated identifier.** -/
structure Identifier where
  text : String
  valid : identifierSyntax text = true
  deriving DecidableEq

instance : Ord Identifier := ⟨fun a b => compare a.text b.text⟩

instance : Std.TransOrd Identifier where
  eq_swap := fun {a b} => Std.OrientedOrd.eq_swap (a := a.text) (b := b.text)
  isLE_trans := fun {a b c} => Std.TransOrd.isLE_trans (a := a.text) (b := b.text) (c := c.text)

instance : Std.LawfulEqOrd Identifier where
  compare_self := fun {a} => Std.ReflOrd.compare_self (a := a.text)
  eq_of_compare := by
    rintro ⟨a, ha⟩ ⟨b, hb⟩ h
    obtain rfl : a = b := Std.LawfulEqOrd.eq_of_compare h
    rfl

/-- Persistent identity of an authority store. -/
abbrev InstallationId := Identifier

abbrev TenantId := Identifier

abbrev PrincipalId := Identifier

/-- Identity of one actual invocation. -/
abbrev ExecutionId := Identifier

/-- An immutable revision. -/
abbrev RevisionId := Identifier

/-- Identity of one provider attempt within an invocation. -/
abbrev AttemptId := Identifier

abbrev ProviderId := Identifier

abbrev AccountId := Identifier

abbrev CredentialId := Identifier

/-- The largest integer every JSON client represents exactly. -/
def maxInteger : ℕ := 9007199254740991

/-- A contract violation. -/
structure ValidationError where
  message : String
  deriving DecidableEq

end BitRouter.Tenancy
