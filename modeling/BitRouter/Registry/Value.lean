import BitRouter.Data.IndexMap
import BitRouter.Data.Result
import Mathlib.Algebra.Order.Ring.Nat

/-!
# The exact JSON tree

Registry documents are held in `registry_json`, a JSON tree that keeps
every number as the text it was written with and every object in insertion
order. `Value` is that tree. A member is read with `v["key"]`, which answers
`null` where `v` is no object or has no such member, as the source's index
does, or with `Value.get`, which tells absence from `null`.

The source's `==` on trees compares objects as maps: the order of the
members does not count, and neither does anything else that a lookup cannot
see. `Value.eqv` is that comparison, and it is coarser than `=`.
-/

namespace BitRouter.Registry

/-- A JSON value with exact numbers. -/
inductive Value
  | null
  | bool (b : Bool)
  /-- A number, as the text it was spelled with. -/
  | number (lexeme : String)
  | string (s : String)
  | array (items : List Value)
  | object (fields : List (String × Value))
  deriving Repr, Inhabited

namespace Value

/-! ## Reading -/

/-- The member of an object, if it has one. -/
def get (v : Value) (key : String) : Option Value :=
  match v with
  | object fields => IndexMap.get fields key
  | _ => none

instance : GetElem Value String Value fun _ _ => True where
  getElem v key _ := (v.get key).getD null

theorem getElem_eq (v : Value) (key : String) : v[key] = (v.get key).getD null := rfl

def asStr : Value → Option String
  | string s => some s
  | _ => none

def asBool : Value → Option Bool
  | bool b => some b
  | _ => none

def asArray : Value → Option (List Value)
  | array items => some items
  | _ => none

def asObject : Value → Option (List (String × Value))
  | object fields => some fields
  | _ => none

/-- The text of a number. -/
def asNumber : Value → Option String
  | number lexeme => some lexeme
  | _ => none

def isNull : Value → Bool
  | null => true
  | _ => false

def isString (v : Value) : Bool := v.asStr.isSome
def isNumber (v : Value) : Bool := v.asNumber.isSome
def isArray (v : Value) : Bool := v.asArray.isSome
def isObject (v : Value) : Bool := v.asObject.isSome

theorem eq_object_of_asObject {v : Value} {fields : List (String × Value)}
    (h : v.asObject = some fields) : v = object fields := by
  cases v with
  | object fields' => exact congrArg _ (Option.some.inj h)
  | _ => simp [asObject] at h

theorem eq_array_of_asArray {v : Value} {items : List Value} (h : v.asArray = some items) :
    v = array items := by
  cases v with
  | array items' => exact congrArg _ (Option.some.inj h)
  | _ => simp [asArray] at h

/-- Whether a value is a given string. -/
def isStr (v : Value) (s : String) : Bool := v.asStr = some s

def items (v : Value) : List Value := v.asArray.getD []

/-- The members of an object, none for any other value. -/
def members (v : Value) : List (String × Value) := v.asObject.getD []

/-- An array index of a pointer: decimal digits without a leading zero. -/
def arrayIndex (token : String) : Option ℕ :=
  let chars := token.toList
  if chars.isEmpty ∨ (1 < chars.length ∧ chars.head? = some '0')
      ∨ ¬ chars.all Char.isDigit then none
  else
    let n := chars.foldl (fun n c => 10 * n + (c.toNat - 48)) 0
    if n < 2 ^ 64 then some n else none

/-- One step of a pointer. -/
def step (v : Value) (token : String) : Option Value :=
  match v with
  | object fields => IndexMap.get fields token
  | array items => (arrayIndex token).bind (fun i => items[i]?)
  | _ => none

theorem step_eq_get {token : String} (h : arrayIndex token = none) (v : Value) :
    v.step token = v.get token := by
  cases v with
  | array items => simp [step, get, h]
  | _ => rfl

/-- The value at a pointer, given by its tokens. -/
def pointer : Value → List String → Option Value
  | v, [] => some v
  | v, token :: rest => (v.step token).bind (fun child => child.pointer rest)

/-! ## Assigning -/

/-- `v["key"] = new`. A value that is neither an object nor null has no
members to assign; the source aborts there, and no caller gets there. -/
def insert (v : Value) (key : String) (new : Value) : Value :=
  match v with
  | object fields => object (IndexMap.insert fields key new)
  | null => object [(key, new)]
  | v => v

/-! ## Well-formedness -/

mutual

/-- Whether the keys of every object in a value are distinct, as the map
type of the source guarantees. -/
def wellFormed : Value → Bool
  | object fields => (IndexMap.keys fields).Nodup && wellFormedFields fields
  | array items => wellFormedItems items
  | _ => true

def wellFormedFields : List (String × Value) → Bool
  | [] => true
  | (_, v) :: fields => v.wellFormed && wellFormedFields fields

def wellFormedItems : List Value → Bool
  | [] => true
  | v :: items => v.wellFormed && wellFormedItems items

end

theorem wellFormedFields_iff {fields : List (String × Value)} :
    wellFormedFields fields = true ↔ ∀ e ∈ fields, e.2.wellFormed = true := by
  induction fields with
  | nil => simp [wellFormedFields]
  | cons e fields ih => rw [wellFormedFields, Bool.and_eq_true, ih, List.forall_mem_cons]

theorem wellFormedItems_iff {items : List Value} :
    wellFormedItems items = true ↔ ∀ v ∈ items, v.wellFormed = true := by
  induction items with
  | nil => simp [wellFormedItems]
  | cons v items ih => rw [wellFormedItems, Bool.and_eq_true, ih, List.forall_mem_cons]

@[simp] theorem wellFormed_object {fields : List (String × Value)} :
    (object fields).wellFormed = true ↔
      (IndexMap.keys fields).Nodup ∧ ∀ e ∈ fields, e.2.wellFormed = true := by
  rw [wellFormed, Bool.and_eq_true, decide_eq_true_iff, wellFormedFields_iff]

@[simp] theorem wellFormed_array {items : List Value} :
    (array items).wellFormed = true ↔ ∀ v ∈ items, v.wellFormed = true := by
  rw [wellFormed, wellFormedItems_iff]

theorem wellFormed_of_get {v w : Value} {key : String} (hv : v.wellFormed = true)
    (h : v.get key = some w) : w.wellFormed = true := by
  cases v with
  | object fields =>
    exact (wellFormed_object.mp hv).2 _ (IndexMap.mem_of_get_eq_some h)
  | _ => simp [get] at h

theorem wellFormed_getElem {v : Value} (hv : v.wellFormed = true) (key : String) :
    v[key].wellFormed = true := by
  rw [getElem_eq]
  cases h : v.get key with
  | none => rfl
  | some w => exact wellFormed_of_get hv h

theorem wellFormed_insertField {fields : List (String × Value)} {key : String} {v : Value}
    (h : (object fields).wellFormed = true) (hv : v.wellFormed = true) :
    (object (IndexMap.insert fields key v)).wellFormed = true := by
  rw [wellFormed_object] at h ⊢
  refine ⟨IndexMap.nodup_keys_insert h.1 key v, fun e he => ?_⟩
  rcases IndexMap.mem_insert he with rfl | he
  · exact hv
  · exact h.2 e he

/-! ## Comparing -/

mutual

/-- Equality of trees, objects compared as maps. -/
def eqv : Value → Value → Bool
  | null, null => true
  | bool a, bool b => a = b
  | number a, number b => a = b
  | string a, string b => a = b
  | array xs, array ys => eqvItems xs ys
  | object fs, object gs => fs.length = gs.length && eqvFields fs gs
  | _, _ => false

def eqvItems : List Value → List Value → Bool
  | [], [] => true
  | x :: xs, y :: ys => x.eqv y && eqvItems xs ys
  | _, _ => false

/-- Every member on the left has an equal one on the right. -/
def eqvFields : List (String × Value) → List (String × Value) → Bool
  | [], _ => true
  | (k, v) :: fs, gs =>
    (match IndexMap.get gs k with
      | some w => v.eqv w
      | none => false) && eqvFields fs gs

end

/-- Equality of optional trees. -/
def eqvOption : Option Value → Option Value → Bool
  | none, none => true
  | some a, some b => a.eqv b
  | _, _ => false

/-! ## Rendering -/

/-- The four hexadecimal digits of an escaped control character. -/
def hexDigits (n : ℕ) : List Char :=
  [n / 4096, n / 256 % 16, n / 16 % 16, n % 16].map Nat.digitChar

def escapeChar (c : Char) : List Char :=
  if c = '"' then ['\\', '"']
  else if c = '\\' then ['\\', '\\']
  else if c = '\n' then ['\\', 'n']
  else if c = '\r' then ['\\', 'r']
  else if c = '\t' then ['\\', 't']
  else if c.toNat = 8 then ['\\', 'b']
  else if c.toNat = 12 then ['\\', 'f']
  else if c.toNat < 32 then '\\' :: 'u' :: hexDigits c.toNat
  else [c]

def renderString (s : String) : List Char :=
  '"' :: (s.toList.flatMap escapeChar ++ ['"'])

mutual

/-- The compact serialization, as characters. -/
def renderChars : Value → List Char
  | null => ['n', 'u', 'l', 'l']
  | bool true => ['t', 'r', 'u', 'e']
  | bool false => ['f', 'a', 'l', 's', 'e']
  | number lexeme => lexeme.toList
  | string s => renderString s
  | array items => '[' :: (renderItems items ++ [']'])
  | object fields => Char.ofNat 123 :: (renderFields fields ++ [Char.ofNat 125])

def renderItems : List Value → List Char
  | [] => []
  | [v] => v.renderChars
  | v :: vs => v.renderChars ++ ',' :: renderItems vs

def renderFields : List (String × Value) → List Char
  | [] => []
  | [(k, v)] => renderString k ++ ':' :: v.renderChars
  | (k, v) :: fs => renderString k ++ ':' :: v.renderChars ++ ',' :: renderFields fs

end

/-- The compact serialization. -/
def render (v : Value) : String := String.ofList v.renderChars

end Value

end BitRouter.Registry
