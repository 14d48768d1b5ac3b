import BitRouter.Registry.Mapping

/-!
# Normalizing a listing

How fetched pages become an observation. Each row starts from the reviewed
defaults, takes the mapped and transformed fields the source states, and
must then be a document row; rows of one native identity must agree.

Two registered adapters run a fixed mapping through the same validation:
`ModelsDev` and `OpenRouter`.
-/

namespace BitRouter.Registry

/-! ## The registered adapters -/

namespace ModelsDev

def kind : String := "models_dev"

def url : String := "https://models.dev/api.json?type=all"

def invalid (message : String) : RegistryError where
  code := "registry.invalid_data"
  path := "/auto_sync/feeds"
  message := message
  recovery := "Retain previous inventory; repair the source declaration or update the "
    ++ "models.dev adapter"

/-- The generic feed the adapter runs as. -/
def genericFeed (feed : Value) : Value :=
  (feed.insert "kind" (.string "v1_models")).insert "response" (.object [
    ("items_path", .string "/data"),
    ("mapping", .object [("/id", .string "/provider_model_id"), ("/name", .string "/name"),
      ("/description", .string "/description")]),
    ("defaults", .object [("status", .string "staging"), ("interfaces", .array [])])])

def validate (feed : Value) : Except RegistryError Unit := do
  let request := feed["request"]
  let inventory := feed["inventory"]
  ensure (request["url"].isStr url ∧ request["auth"]["kind"].isStr "none"
      ∧ (request.get "query").isNone
      ∧ ((request.get "headers").map (fun h => h.asObject.any List.isEmpty)).getD true
      ∧ feed["pagination"]["kind"].isStr "none" ∧ (feed.get "response").isNone
      ∧ feed["provider_id"].asStr.any (fun s => s ≠ "")
      ∧ inventory["mode"].isStr "merge" ∧ inventory["scope"].isStr "public"
      ∧ inventory["complete"].eqv (.bool false))
    (invalid "models.dev requires an explicit provider and anonymous merge-only public catalog")
  let writes ← orFail feed["writes"].asArray (invalid "Missing adapter write authority")
  ensure (writes.length = 2 ∧ writes.any (fun v => v.isStr "models")
      ∧ writes.any (fun v => v.isStr "metadata"))
    (invalid "models.dev supports only models and descriptive metadata")
  Mapping.validateListing (genericFeed feed)

end ModelsDev

namespace OpenRouter

def kind : String := "openrouter_models"

def url : String := "https://openrouter.ai/api/v1/models?output_modalities=all"

def invalid (message : String) : RegistryError where
  code := "canonical_source_unavailable"
  path := "/data"
  message := message
  recovery := "Retain previous inventory; update the registered OpenRouter adapter if its API " ++
    "contract changed"

/-- The generic feed the adapter runs as. -/
def genericFeed (feed : Value) : Value :=
  (feed.insert "kind" (.string "v1_models")).insert "response" (.object [
    ("items_path", .string "/data"),
    ("mapping", .object (["/provider_model_id", "/canonical_id", "/name", "/description",
      "/model_types", "/interfaces"].map (fun path => (path, .string path)))),
    ("defaults", .object [("status", .string "active"), ("interfaces", .array [])])])

def validate (feed : Value) : Except RegistryError Unit := do
  let request := feed["request"]
  ensure (request["url"].isStr url ∧ (feed.get "response").isNone
      ∧ feed["pagination"]["kind"].isStr "none" ∧ (request.get "query").isNone)
    (invalid "OpenRouter adapter requires its exact unfiltered full-list request")
  let writes ← orFail feed["writes"].asArray (invalid "Missing adapter write authority")
  ensure (writes.length = 2 ∧ writes.any (fun v => v.isStr "models")
      ∧ writes.any (fun v => v.isStr "metadata") ∧ feed["inventory"]["scope"].isStr "public"
      ∧ feed["inventory"]["complete"].eqv (.bool true))
    (invalid "OpenRouter adapter requires models/metadata and complete public inventory")
  Mapping.validateListing (genericFeed feed)

end OpenRouter

/-! ## Transforms -/

namespace Mapping

/-- **Validate the declaration of a feed** of any kind. -/
def validate (feed : Value) : Except RegistryError Unit :=
  if feed["kind"].isStr ModelsDev.kind then ModelsDev.validate feed
  else if feed["kind"].isStr OpenRouter.kind then OpenRouter.validate feed
  else validateListing feed

/-- The digits of a fraction below one, at most so many, and what is left
of its numerator. -/
def fractionDigits : ℕ → ℕ → ℕ → String × ℕ
  | 0, numerator, _ => ("", numerator)
  | places + 1, numerator, denominator =>
    let digit := Nat.repr (numerator * 10 / denominator)
    let rest := numerator * 10 % denominator
    if rest = 0 then (digit, 0)
    else
      let (digits, left) := fractionDigits places rest denominator
      (digit ++ digits, left)

/-- A nonnegative rational as a JSON number. -/
def number (value : ℚ) : Except RegistryError Value := do
  ensure (0 ≤ value) (invalid "Negative normalized price")
  let numerator := value.num.toNat % value.den
  let integer := Nat.repr (value.num.toNat / value.den)
  if numerator = 0 then
    ensure (integer.utf8ByteSize ≤ 128) (invalid "Normalized decimal exceeds precision budget")
    return .number integer
  else
    let (digits, left) := fractionDigits 128 numerator value.den
    let text := integer ++ "." ++ digits
    ensure (left = 0 ∧ text.utf8ByteSize ≤ 128)
      (invalid "Normalized decimal exceeds precision budget")
    return .number text

/-- `str::strip_prefix`. -/
def stripPrefix (s prefixed : String) : Option String :=
  if startsWith s prefixed then some (String.ofList (s.toList.drop prefixed.toList.length))
  else none

def transformStep (value step : Value) : Except RegistryError Value :=
  match step["kind"].asStr with
  | some "strip_prefix" => do
    let prefixed ← orFail step["value"].asStr (invalid "Missing literal resource prefix")
    let stripped ← orFail ((value.asStr.bind (fun s => stripPrefix s prefixed)).filter
      (fun s => s ≠ "")) (invalid
        "Resource name must contain its declared prefix and a nonempty ID")
    return .string stripped
  | some "prefix" => do
    let text ← orFail value.asStr (invalid "prefix requires a string")
    return .string (step["value"].asStr.getD "" ++ text)
  | some "parse_decimal" => do
    let raw ← orFail (value.asStr.filter (fun s => ¬ ('e' ∈ s.toList ∨ 'E' ∈ s.toList)))
      (invalid "parse_decimal requires a non-exponent decimal string")
    number (← decimal raw)
  | some "multiply" => do
    ensure value.isNumber (invalid "multiply requires a numeric value")
    number ((← decimal value.render) * (← decimal step["factor"].render))
  | some "value_map" => do
    let row ← orFail ((step["values"].asArray).bind
      (fun rows => rows.find? (fun row => typedEqual row["from"] value)))
      (invalid "value_map has no exact typed match")
    return row["to"]
  | _ => .error (unsupported "Unknown transform")

def transformed (value : Value) (steps : Option Value) : Except RegistryError Value :=
  if value.isNull then .ok .null
  else
    match steps.bind Value.asArray with
    | none => .ok value
    | some steps => steps.foldlM transformStep value

/-! ## Rows -/

mutual

/-- The value with the null members of its objects left out. -/
def withoutClears : Value → Value
  | .object map => .object (withoutClearsFields map)
  | .array values => .array (withoutClearsItems values)
  | value => value

def withoutClearsFields : List (String × Value) → List (String × Value)
  | [] => []
  | (key, value) :: map =>
    if value.isNull then withoutClearsFields map
    else (key, withoutClears value) :: withoutClearsFields map

def withoutClearsItems : List Value → List Value
  | [] => []
  | value :: values => withoutClears value :: withoutClearsItems values

end

mutual

/-- The number of scalar and container values. -/
def nodes : Value → ℕ
  | .array values => 1 + nodesItems values
  | .object map => 1 + nodesFields map
  | _ => 1

def nodesItems : List Value → ℕ
  | [] => 0
  | value :: values => nodes value + nodesItems values

def nodesFields : List (String × Value) → ℕ
  | [] => 0
  | (_, value) :: map => nodes value + nodesFields map

end

/-- Bound on decoded JSON bytes. -/
def maxDocumentBytes : ℕ := 32 * 1024 * 1024

/-- Bound on scalar and container values. -/
def maxDocumentNodes : ℕ := 1000000

/-- `char::is_whitespace`. -/
def isWhitespace (c : Char) : Bool :=
  let n := c.toNat
  (9 ≤ n && n ≤ 13) || n ∈ [0x20, 0x85, 0xA0, 0x1680, 0x2028, 0x2029, 0x202F, 0x205F, 0x3000]
    || (0x2000 ≤ n && n ≤ 0x200A)

/-- `char::is_control`. -/
def isControl (c : Char) : Bool := c.toNat < 32 || (127 ≤ c.toNat && c.toNat < 160)

/-- Native IDs are opaque text with reserved punctuation kept. -/
def nativeId (value : String) : Bool :=
  !value.toList.all isWhitespace && !value.toList.any isControl

/-- The document a normalized row is validated in. -/
def rowDocument (row : Value) : Value :=
  .object [("version", .number "1"), ("spec_revision", .string specRevision),
    ("as_of", .string "1970-01-01T00:00:00Z"),
    ("data", .object [("models", .array []),
      ("providers", .array [.object [("name", .string "validation"),
        ("status", .string "active"), ("billing", .string "usage"),
        ("models", .array [row])]])])]

/-- A member that is there, or is added. -/
def orInsert (map : List (String × Value)) (key : String) (value : Value) :
    List (String × Value) :=
  match IndexMap.get map key with
  | some _ => map
  | none => IndexMap.insert map key value

/-- A row with its observed paths. -/
abbrev Row := Value × List String

/-- The value of one source field is written to one destination. -/
def writeStep (response input : Value) (row : Row) (target : String) :
    Except RegistryError Row := do
  let output ← transformed input ((response.get "transforms").bind (fun v => v.get target))
  knownValue false target output
  ensure (¬ (output.isNull ∧ target ∈ ["/provider_model_id", "/canonical_id", "/status",
      "/interfaces"])) (invalid "Null identity/status/interfaces cannot activate a default")
  let value ← write row.1 target output
  return (value, insertSorted target row.2)

/-- One entry of the mapping is applied to a row. -/
def entryStep (response item : Value) (row : Row) (entry : String × Value) :
    Except RegistryError Row := do
  match ← read item entry.1 with
  | none => return row
  | some input => (← destinations entry.2).foldlM (writeStep response input) row

/-- Whether the declared filter keeps a row. -/
def filterRow (response item : Value) : Except RegistryError Bool :=
  match response.get "filter" with
  | none => .ok true
  | some filter => do
    let observed ← orFail ((← read item (filter["path"].asStr.getD "")).filter
      (fun v => !v.isNull)) (incomplete "Missing filter value")
    ensure (¬ ((filter.get "known_values").bind Value.asArray).any
      (fun known => !known.any (fun v => typedEqual v observed)))
      (incomplete "Unrecognized lifecycle/filter value")
    return filter["in"].asArray.any (fun allowed => allowed.any (fun v => typedEqual v observed))

/-- The lifecycle status of a row of a membership feed, which is always
observed. -/
def observeStatus (authority : List String) (row : Row) : Except RegistryError (List String) :=
  if "models" ∉ authority then .ok row.2
  else do
    ensure row.1["status"].isString
      (invalid "Membership rows require mapped status or defaults.status")
    ensure (row.1["status"].asStr.any (fun s =>
        s ∈ ["active", "staging", "suspended", "withdrawn"]))
      (incomplete "Uninterpretable membership lifecycle status")
    return insertSorted "/status" row.2

variable (fromValue : Value → Except RegistryError Unit)

/-- A composed row is a document row. -/
def admitRow (value : Value) : Except RegistryError Unit := do
  let fields ← orFail (withoutClears value).asObject (invalid "Normalized row must be an object")
  let fields := orInsert (orInsert fields "status" (.string "active")) "interfaces" (.array [])
  fromValue (rowDocument (.object fields))

/-- What `normalize` has gathered: the rows by native identity, the number
of rows left out, and the bytes and values counted against the budgets. -/
structure Listing where
  models : List (String × ObservedModel) := []
  excluded : ℕ := 0
  totalBytes : ℕ := 0
  totalNodes : ℕ := 0

/-- The row of a kept item, with the paths observed of it. That there is a mapping
is checked before any page. -/
def composeRow (authority : List String) (response item : Value) :
    Except RegistryError Row := do
  let defaults := (response.get "defaults").getD (.object [])
  let mapping := response["mapping"].asObject.getD []
  let row ← mapping.foldlM (entryStep response item) (defaults, [])
  listedAuthority row.1 authority
  return row

/-- A composed row passes the checks on identity, clears and lifecycle. -/
def checkRow (authority : List String) (row : Row) :
    Except RegistryError (String × ObservedModel) := do
  let native ← orFail (row.1["provider_model_id"].asStr.filter nativeId)
    (invalid "Mapped provider_model_id must be a nonempty native string")
  ensure ("/provider_model_id" ∈ row.2)
    (invalid "Native identity was not observed; defaults cannot invent it")
  ensure (¬ ["canonical_id", "status", "interfaces"].any
      (fun field => (row.1.get field).any Value.isNull))
    (invalid "Null identity/status/interfaces are invalid defaults")
  let observed ← observeStatus authority row
  admitRow fromValue row.1
  return (native, { value := row.1, observed := observed })

/-- One item of a page. -/
def itemStep (authority : List String) (response : Value) (listing : Listing) (item : Value) :
    Except RegistryError Listing := do
  ensure item.isObject (invalid "Model listing item must be an object")
  if ← filterRow response item then
    let row ← composeRow authority response item
    let totalBytes := listing.totalBytes + row.1.render.utf8ByteSize
    ensure (totalBytes ≤ maxDocumentBytes)
      (invalid "Normalized observation exceeds byte budget")
    let totalNodes := listing.totalNodes + nodes row.1
    ensure (totalNodes ≤ maxDocumentNodes)
      (invalid "Normalized observation exceeds value budget")
    let (native, model) ← checkRow fromValue authority row
    match IndexMap.get listing.models native with
    | some previous => do
      ensure (typedEqual previous.value model.value ∧ previous.observed = model.observed)
        (invalid "Conflicting duplicate native identity across listing pages")
      return { listing with totalBytes, totalNodes }
    | none =>
      return { listing with
        models := IndexMap.insert listing.models native model, totalBytes, totalNodes }
  else return { listing with excluded := listing.excluded + 1 }

/-- One fetched page. -/
def pageStep (authority : List String) (response : Value) (listing : Listing) (page : Value) :
    Except RegistryError Listing := do
  let items ← orFail ((← read page (response["items_path"].asStr.getD "")).bind Value.asArray)
    (invalid "items_path must resolve to an array")
  items.foldlM (itemStep fromValue authority response) listing

/-- **Normalize all fetched pages.** The rows come in the order of their
native identities. -/
def normalize (feed : Value) (pages : List Value) : Except RegistryError Observation := do
  validate feed
  let authority ← writes feed
  ensure feed["response"]["mapping"].isObject (invalid "Missing mapping")
  let listing ← pages.foldlM (pageStep fromValue authority feed["response"]) {}
  ensure (¬ ("models" ∈ authority ∧ listing.models = []
      ∧ ¬ feed["inventory"]["allow_empty"].eqv (.bool true)))
    (incomplete "Empty inventory is not allowed by this feed")
  return { models := (listing.models.insertionSort (fun a b => a.1 ≤ b.1)).map Prod.snd
           excluded := listing.excluded }

end Mapping

end BitRouter.Registry
