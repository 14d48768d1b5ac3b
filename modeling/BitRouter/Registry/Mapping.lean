import BitRouter.Registry.Pointer

/-!
# Feed mappings

The rest of `mapping.rs`: which destinations a mapping knows and in which
write domain they lie (`domain`), when the declaration of a feed is accepted
(`validate`), and how fetched pages become an observation (`normalize`).
Destinations of the interface list are known three levels down and deeper,
per field.

`normalize` hands every row to `Document::from_value`, whose structural
schema is evaluated outside this repository; it is the parameter
`fromValue`.
-/

namespace BitRouter.Registry

/-- One normalized row plus the destination paths it was observed at. -/
structure ObservedModel where
  value : Value
  /-- The observed paths, in ascending order. -/
  observed : List String

/-- A complete interpreted response set. -/
structure Observation where
  models : List ObservedModel
  excluded : ℕ

/-- `BTreeSet::insert`: the set is its elements in ascending order. -/
def insertSorted (s : String) : List String → List String
  | [] => [s]
  | t :: ts => if s = t then t :: ts else if s < t then s :: t :: ts else t :: insertSorted s ts

namespace Mapping

def unsupported (message : String) : RegistryError where
  code := "registry.sync_unsupported"
  path := "/auto_sync/feeds"
  message := message
  recovery := "Upgrade to an importer supporting this feed contract or repair the feed " ++
    "configuration"

def incomplete (message : String) : RegistryError where
  code := "registry.sync_incomplete"
  path := "/auto_sync/feeds"
  message := message
  recovery := "Verify the provider's complete listing and lifecycle contract before retrying"

/-! ## Comparing by type and exact value -/

/-- The exact value of a signed number. -/
def exact (spelling : String) : Option ℚ :=
  let negative := spelling.toList.head? = some '-'
  let body := if negative then spelling.toList.tail else spelling.toList
  match decimal (String.ofList body) with
  | .ok q => some (if negative then -q else q)
  | .error _ => none

mutual

def typedEqual : Value → Value → Bool
  | .number a, .number b =>
    match exact a, exact b with
    | some a, some b => a = b
    | _, _ => false
  | .array xs, .array ys => xs.length = ys.length && typedEqualItems xs ys
  | .object fs, .object gs => fs.length = gs.length && typedEqualFields fs gs
  | .null, .null => true
  | .bool a, .bool b => a = b
  | .string a, .string b => a = b
  | _, _ => false

def typedEqualItems : List Value → List Value → Bool
  | x :: xs, y :: ys => typedEqual x y && typedEqualItems xs ys
  | _, _ => true

def typedEqualFields : List (String × Value) → List (String × Value) → Bool
  | [], _ => true
  | (k, v) :: fs, gs =>
    (match IndexMap.get gs k with
      | some w => typedEqual v w
      | none => false) && typedEqualFields fs gs

end

/-! ## Write domains -/

inductive Domain
  | identity
  | models
  | metadata
  | interfaceIdentity
  | pricing
  deriving DecidableEq, Repr

def Domain.name : Domain → String
  | identity => "identity"
  | models => "models"
  | metadata => "metadata"
  | interfaceIdentity => "interface_identity"
  | pricing => "pricing"

/-- Whether a token is an array index. -/
def isIndex (t : String) : Bool := (index t).toBool

/-- The names an object-valued interface field knows. -/
def knownMembers : String → List String
  | "limits" => ["max_input_tokens", "max_output_tokens", "context_window"]
  | "rate_limits" => ["requests_per_minute", "tokens_per_minute"]
  | "compatibility" =>
    ["google_extensions", "token_limit_field", "supports_store", "supports_stream_options"]
  | "reasoning_effort" => ["levels", "default"]
  | _ => []

/-- The list-valued interface fields. -/
def listFields : List String :=
  ["question_types", "input_modalities", "output_modalities", "capabilities"]

def metadataFields : List String :=
  ["question_types", "base_url", "input_modalities", "output_modalities", "capabilities",
    "limits", "rate_limits", "compatibility", "reasoning_effort"]

/-- Whether a path below an interface field is known, the field given
apart. -/
def knownMetadataPath (field : String) : List String → Bool
  | [] => true
  | [name] => if field ∈ listFields then isIndex name else name ∈ knownMembers field
  | [name, item] => field = "reasoning_effort" && name = "levels" && isIndex item
  | _ => false

/-- Whether a path below a group of rates is known. -/
def knownRatePath (group : String) : List String → Bool
  | [] => true
  | [name] => knownRates.any (fun g => g.1 = group && name ∈ g.2)
  | _ => false

/-- Whether a path below the context tiers is known. -/
def knownTierPath : List String → Bool
  | [] => true
  | [i] => isIndex i
  | i :: name :: rest =>
    isIndex i && ((name = "above_input_tokens" && rest = [])
      || (name ∈ ["input_tokens", "output_tokens"] && knownRatePath name rest))

/-- Whether a path below the meters is known. -/
def knownMeterPath : List String → Bool
  | [] => true
  | [i] => isIndex i
  | [i, name] => isIndex i && name ∈ ["id", "unit", "quantity", "amount"]
  | _ => false

def knownPricePath : List String → Bool
  | [] => true
  | field :: rest =>
    if field ∈ ["kind", "currency", "endpoint_profile"] then rest = []
    else if field ∈ ["input_tokens", "output_tokens"] then knownRatePath field rest
    else if field = "context_tiers" then knownTierPath rest
    else if field = "meters" then knownMeterPath rest
    else false

def identityFields : List String := ["protocol", "operation", "protocol_profile"]

def fieldDomain (field : String) (rest : List String) : Except RegistryError Domain :=
  if field ∈ identityFields ∧ rest = [] then .ok .interfaceIdentity
  else if field = "pricing" ∧ knownPricePath rest = true then .ok .pricing
  else if field ∈ metadataFields ∧ knownMetadataPath field rest = true then .ok .metadata
  else .error (unsupported "Unknown interface mapping destination")

/-- Tokens no destination may pass. -/
def controlFields : List String := ["requires", "sync", "auth", "curation", "auto_sync"]

/-- The domain of a path below the interfaces. -/
def interfaceDomain : List String → Except RegistryError Domain
  | [] => .ok .metadata
  | [i] => do
    let _ ← index i
    return .metadata
  | i :: field :: rest => do
    let _ ← index i
    fieldDomain field rest

/-- The domain of a path. -/
def domainOf : List String → Except RegistryError Domain
  | [] => .error (invalid "Destination root is forbidden")
  | root :: rest =>
    if (root :: rest).any (· ∈ controlFields) then
      .error (invalid "Mapping cannot write control or ownership fields")
    else if root ∈ ["provider_model_id", "canonical_id"] ∧ rest = [] then .ok .identity
    else if root ∈ ["status", "available_until"] ∧ rest = [] then .ok .models
    else if root ∈ ["name", "description", "model_types", "upstream_lifecycle"] ∧ rest = [] then
      .ok .metadata
    else if root = "interfaces" then interfaceDomain rest
    else .error (unsupported "Unknown normalized mapping destination")

/-- **The domain of a known normalized model path.** -/
def domain (pointer : String) : Except RegistryError Domain := do
  domainOf (← tokens pointer)

/-- `str::ends_with`. -/
def endsWith (s suffix : String) : Bool := suffix.toList.isSuffixOf s.toList

mutual

/-- Whether a value holds only known destinations. The feature list of a
price passes where the value is a reviewed one. -/
def knownValue (reviewed : Bool) (path : String) : Value → Except RegistryError Unit
  | .object map =>
    if reviewed && endsWith path "/pricing/requires" then .ok ()
    else do
      let _ ← domain path
      knownFields reviewed path map
  | .array values =>
    if reviewed && endsWith path "/pricing/requires" then .ok ()
    else do
      let _ ← domain path
      -- Model type arrays have no nested object schema.
      if path = "/model_types" then return () else knownItems reviewed path 0 values
  | _ =>
    if reviewed && endsWith path "/pricing/requires" then .ok ()
    else do
      let _ ← domain path
      return ()

def knownFields (reviewed : Bool) (path : String) :
    List (String × Value) → Except RegistryError Unit
  | [] => .ok ()
  | (key, value) :: map => do
    knownValue reviewed (path ++ "/" ++ escape key) value
    knownFields reviewed path map

def knownItems (reviewed : Bool) (path : String) (i : ℕ) :
    List Value → Except RegistryError Unit
  | [] => .ok ()
  | value :: values => do
    knownValue reviewed (path ++ "/" ++ Nat.repr i) value
    knownItems reviewed path (i + 1) values

end

/-! ## The declaration of a feed -/

def destinations (value : Value) : Except RegistryError (List String) :=
  match value.asStr with
  | some path => .ok [path]
  | none => do
    let paths ← orFail (value.asArray.filter (fun a => !a.isEmpty))
      (invalid "Mapping needs one destination or a nonempty destination array")
    paths.mapM (fun v => orFail v.asStr (invalid "Destination must be a JSON Pointer string"))

/-- One declared write domain, after those before it. -/
def writesStep (domains : List String) (value : Value) : Except RegistryError (List String) := do
  let name ← orFail value.asStr (invalid "Write domain must be a string")
  ensure (name ∈ ["models", "metadata", "pricing"]) (unsupported "Unknown feed write domain")
  ensure (name ∉ domains) (invalid "Duplicate feed write domain")
  return insertSorted name domains

/-- The declared write domains. -/
def writes (feed : Value) : Except RegistryError (List String) := do
  let values ← orFail (feed["writes"].asArray.filter (fun a => !a.isEmpty))
    (invalid "Feed writes must be nonempty")
  values.foldlM writesStep []

/-- Every field of every interface lies in a declared domain. -/
def interfaceAuthority (interfaces : Value) (authority : List String) :
    Except RegistryError Unit := do
  let items ← orFail interfaces.asArray (invalid "Interfaces must be an array")
  items.forM (fun interface => do
    let fields ← orFail interface.asObject (invalid "Interface must be an object")
    fields.forM (fun (key, _) => do
      let owner ← domain ("/interfaces/0/" ++ key)
      ensure (owner = .interfaceIdentity ∨ owner.name ∈ authority)
        (invalid "Nested interface field exceeds declared writes")))

def listedAuthority (row : Value) (authority : List String) : Except RegistryError Unit :=
  match row.get "interfaces" with
  | some interfaces => interfaceAuthority interfaces authority
  | none => .ok ()

/-- Whether one of two paths is a prefix of the other. -/
def overlaps (path other : List String) : Bool := other.isPrefixOf path || path.isPrefixOf other

/-- One destination, after those before it. -/
def destinationStep (authority : List String) (paths : List (String × List String))
    (pointer : String) : Except RegistryError (List (String × List String)) := do
  let path ← tokens pointer
  let owner ← domain pointer
  ensure (owner ∈ [Domain.identity, .interfaceIdentity] ∨ owner.name ∈ authority)
    (invalid "Destination is outside declared writes")
  ensure (¬ paths.any (fun other => overlaps path other.2))
    (invalid "Duplicate or overlapping mapping destinations")
  return paths ++ [(pointer, path)]

def mappingStep (authority : List String) (paths : List (String × List String))
    (entry : String × Value) : Except RegistryError (List (String × List String)) := do
  let _ ← tokens entry.1
  (← destinations entry.2).foldlM (destinationStep authority) paths

/-- The default of one field lies in a declared domain. -/
def checkDefault (authority : List String) (entry : String × Value) :
    Except RegistryError Unit := do
  let path := "/" ++ entry.1
  knownValue true path entry.2
  let owner ← domain path
  let emptyInterfaces := entry.1 = "interfaces" ∧ entry.2.asArray.any List.isEmpty
  ensure (emptyInterfaces ∨ owner ∈ [Domain.identity, .interfaceIdentity]
      ∨ owner.name ∈ authority ∨ (entry.1 = "interfaces" ∧ "pricing" ∈ authority))
    (invalid "Default is outside declared writes")

def validateDefaults (authority : List String) (response : Value) : Except RegistryError Unit :=
  match response.get "defaults" with
  | none => .ok ()
  | some defaults => do
    let fields ← orFail defaults.asObject (invalid "Defaults must be an object")
    listedAuthority defaults authority
    fields.forM (checkDefault authority)

/-- The rows of a value map have distinct sources. -/
def checkValueMap : List Value → List Value → Except RegistryError Unit
  | _, [] => .ok ()
  | seen, item :: items => do
    ensure (¬ ((item.get "from").isNone ∨ (item.get "to").isNone
        ∨ seen.any (fun v => typedEqual v["from"] item["from"])))
      (invalid "Invalid or duplicate value_map source")
    checkValueMap (seen ++ [item]) items

def validateStep (target : String) (step : Value) : Except RegistryError Unit := do
  ensure (¬ (step["kind"].isStr "strip_prefix" ∧ target ≠ "/provider_model_id"))
    (invalid "Resource-prefix removal applies only to native model IDs")
  let malformed := invalid "Malformed transform parameters"
  match step["kind"].asStr with
  | some "prefix" => ensure step["value"].isString malformed
  | some "strip_prefix" => ensure (step["value"].asStr.any (fun s => s ≠ "")) malformed
  | some "parse_decimal" => return ()
  | some "multiply" => do
    ensure step["factor"].isNumber malformed
    let _ ← decimal step["factor"].render
    return ()
  | some "value_map" => do
    let values ← orFail step["values"].asArray (invalid "value_map needs a values array")
    checkValueMap [] values
  | _ => .error (unsupported "Unknown transform kind")

def validateTransform (paths : List (String × List String)) (entry : String × Value) :
    Except RegistryError Unit := do
  ensure (paths.any (fun p => p.1 = entry.1)) (invalid "Transform target must be mapped")
  let steps ← orFail (entry.2.asArray.filter (fun v => v.length ≤ 64))
    (invalid "Invalid or excessive transform list")
  ensure (¬ (entry.1 = "/provider_model_id" ∧ (steps.length ≠ 1
      ∨ ¬ steps.head?.any (fun step => step["kind"].isStr "strip_prefix"))))
    (invalid "Native identity permits only one checked resource-prefix removal")
  steps.forM (validateStep entry.1)

def validateTransforms (paths : List (String × List String)) (response : Value) :
    Except RegistryError Unit :=
  match response.get "transforms" with
  | none => .ok ()
  | some transforms => do
    let entries ← orFail transforms.asObject (invalid "Transforms must be an object")
    entries.forM (validateTransform paths)

/-- Whether two of the values are equal by type. -/
def hasDuplicate (values : List Value) : Bool :=
  values.zipIdx.any (fun (v, i) => (values.take i).any (fun w => typedEqual w v))

def validateFilter (feed response : Value) : Except RegistryError Unit :=
  match response.get "filter" with
  | none => .ok ()
  | some filter => do
    let _ ← tokens (← orFail filter["path"].asStr (invalid "Filter needs a path"))
    let allowed ← orFail (filter["in"].asArray.filter (fun a => !a.isEmpty))
      (invalid "Filter allowlist must be nonempty")
    ensure (¬ hasDuplicate allowed) (invalid "Duplicate filter allowlist value")
    match filter.get "known_values" with
    | some known => do
      let known ← orFail known.asArray (invalid "known_values must be an array")
      ensure (¬ (allowed.any (fun v => !known.any (fun k => typedEqual k v))
          ∨ hasDuplicate known)) (invalid "Invalid or duplicate known filter vocabulary")
    | none =>
      ensure (¬ feed["inventory"]["complete"].eqv (.bool true))
        (invalid "Complete filtered inventory requires known_values")

/-- **Validate a generic listing feed** before any request is sent. -/
def validateListing (feed : Value) : Except RegistryError Unit := do
  ensure (feed["kind"].isStr "v1_models" ∧ ReaderPolicy.supports {} feed)
    (unsupported "Unknown feed kind or required feature")
  let authority ← writes feed
  let response ← orFail ((feed.get "response").filter Value.isObject)
    (invalid "Missing response configuration")
  let _ ← tokens (← orFail ((response.get "items_path").bind Value.asStr)
    (invalid "Missing items_path"))
  let mapping ← orFail (((response.get "mapping").bind Value.asObject).filter
    (fun m => !m.isEmpty)) (invalid "Missing mapping object")
  let paths ← mapping.foldlM (mappingStep authority) []
  ensure (paths.any (fun p => p.1 = "/provider_model_id"))
    (invalid "Native identity must be explicitly mapped")
  validateDefaults authority response
  validateTransforms paths response
  validateFilter feed response

end Mapping

end BitRouter.Registry
