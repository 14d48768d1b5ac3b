import BitRouter.Data.Delimited
import BitRouter.Registry.Document

/-!
# JSON Pointers

The pointer part of `mapping.rs`: `tokens` decodes a pointer, `read` and
`write` follow it.
-/

namespace BitRouter.Registry.Mapping

/-- Nested JSON depth allowed before constructing a full value tree. -/
def maxDocumentDepth : ℕ := 64

def invalid (message : String) : RegistryError := .invalid "/auto_sync/feeds" message

/-- `str::starts_with`. -/
def startsWith (s prefixed : String) : Bool := prefixed.toList.isPrefixOf s.toList

/-! ## Tokens -/

/-- Keys no pointer may name. -/
def reservedKeys : List String := ["__proto__", "prototype", "constructor"]

/-- Undo the two escapes of a pointer. -/
def decode : List Char → Option (List Char)
  | [] => some []
  | c :: cs =>
    if c = '~' then
      match cs with
      | [] => none
      | d :: cs =>
        if d = '0' then (decode cs).map ('~' :: ·)
        else if d = '1' then (decode cs).map ('/' :: ·)
        else none
    else (decode cs).map (c :: ·)

def token (part : List Char) : Except RegistryError String := do
  let decoded ← orFail (decode part) (invalid "Invalid JSON Pointer escape")
  ensure (String.ofList decoded ∉ reservedKeys) (invalid "Unsafe object key in JSON Pointer")
  return String.ofList decoded

/-- **Decode a JSON Pointer**, rejecting unsupported escapes and reserved
object keys. -/
def tokens (pointer : String) : Except RegistryError (List String) := do
  ensure (pointer.toList.count '/' ≤ maxDocumentDepth)
    (invalid "JSON Pointer exceeds the supported nesting depth")
  match pointer.toList with
  | [] => return []
  | c :: raw => do
    ensure (c = '/') (invalid "JSON Pointer must start with slash")
    (Delimited.split '/' raw).mapM token

def escapeChar (c : Char) : List Char :=
  if c = '~' then ['~', '0'] else if c = '/' then ['~', '1'] else [c]

def escapeChars (cs : List Char) : List Char := cs.flatMap escapeChar

def escape (key : String) : String := String.ofList (escapeChars key.toList)

/-- The index a pointer token names. -/
def index (token : String) : Except RegistryError ℕ := do
  let chars := token.toList
  ensure (¬ (chars = [] ∨ (1 < chars.length ∧ chars.head? = some '0')
      ∨ ¬ chars.all Char.isDigit)) (invalid "Expected a fixed zero-based array index")
  ensure (digitsValue chars < 2 ^ 64) (invalid "Array index exceeds supported range")
  return digitsValue chars

@[simp] theorem escapeChars_nil : escapeChars [] = [] := rfl

/-! ## Reading and writing -/

/-- Follow tokens, telling a missing field from a scalar on the way. -/
def readTokens : Value → List String → Except RegistryError (Option Value)
  | value, [] => .ok (some value)
  | .object map, t :: ts =>
    match IndexMap.get map t with
    | some value => readTokens value ts
    | none => .ok none
  | .array values, t :: ts => do
    let i ← index t
    match values[i]? with
    | some value => readTokens value ts
    | none => .ok none
  | _, _ :: _ => .error (invalid "JSON Pointer traverses a scalar")

def read (root : Value) (pointer : String) : Except RegistryError (Option Value) := do
  readTokens root (← tokens pointer)

/-- The object a write steps into, created where it is missing. Arrays are
not created. -/
def childOf (map : List (String × Value)) (head : String) : Except RegistryError Value :=
  match IndexMap.get map head with
  | some child => .ok child
  | none =>
    if head = "interfaces" then
      .error (invalid "Destination arrays must already exist in defaults")
    else .ok (.object [])

def writeParts : Value → List String → Value → Except RegistryError Value
  | _, [], _ => .error (invalid "Destination root is forbidden")
  | .object map, [head], value => .ok (.object (IndexMap.insert map head value))
  | .object map, head :: next :: tail, value => do
    let child ← childOf map head
    return .object (IndexMap.insert map head (← writeParts child (next :: tail) value))
  | .array values, head :: tail, value => do
    let i ← index head
    let child ← orFail values[i]? (invalid "Destination array index is outside defaults")
    match tail with
    | [] => return .array (values.set i value)
    | next :: tail => return .array (values.set i (← writeParts child (next :: tail) value))
  | _, _ :: _, _ => .error (invalid "Destination pointer traverses a scalar")

/-- **Write one destination pointer.** Arrays must already have their
shape. -/
def write (root : Value) (pointer : String) (value : Value) : Except RegistryError Value := do
  let path ← tokens pointer
  ensure ("-" ∉ path) (invalid "Array append is forbidden")
  writeParts root path value

/-- `Map::remove` with the order of the other members kept; the order of
members is read nowhere. -/
def erase (map : List (String × Value)) (key : String) : List (String × Value) :=
  map.filter (fun e => e.1 ≠ key)

end BitRouter.Registry.Mapping
