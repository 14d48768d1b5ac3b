import BitRouter.Data.IndexMap

/-!
# JSON as a program holds it

The tree of `serde_json`: a number is an unsigned integer, a negative one or
a float, and an object is a map in insertion order. Only unsigned integers
are counters.
-/

namespace BitRouter

inductive JsonNumber
  | posInt (n : UInt64)
  | negInt (n : Int)
  | float (lexeme : String)
  deriving DecidableEq, Repr

/-- A JSON value. -/
inductive Json
  | null
  | bool (b : Bool)
  | number (n : JsonNumber)
  | string (s : String)
  | array (items : List Json)
  | object (fields : List (String × Json))
  deriving Repr, Inhabited

namespace Json

def asObject : Json → Option (List (String × Json))
  | object fields => some fields
  | _ => none

/-- The member of an object, if it has one. -/
def get (v : Json) (key : String) : Option Json :=
  v.asObject.bind (fun fields => IndexMap.get fields key)

/-- A number that is an unsigned integer. -/
def asU64 : Json → Option ℕ
  | number (.posInt n) => some n.toNat
  | _ => none

def isNull : Json → Bool
  | null => true
  | _ => false

end Json

end BitRouter
