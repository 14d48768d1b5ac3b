import BitRouter.Mcp.Skills

/-!
# Many servers behind one

`gateway/mcp/aggregating_executor.rs`: the members of an aggregate are listed
together and called one by one. Names of tools and prompts get the prefix of their
member, skill URIs its label, and any other URI is looked up among what the members
list.
-/

namespace BitRouter.Mcp

open StrPrefix (strip startsWith longest)

/-! ## Members -/

inductive McpTransport where
  | http (url : String)
  | stdio (command : String)
deriving DecidableEq, Repr

/-- A server as it is run. -/
structure McpServerConfig where
  name : String
  transport : McpTransport
deriving DecidableEq, Repr

/-- A server as configured. -/
structure ConfigEntry where
  key : String
  config : McpServerConfig
  aggregate : Bool
  toolPrefix : String
deriving DecidableEq, Repr

/-- A server of the aggregate. -/
structure AggregateMember where
  serverName : String
  toolPrefix : String
  transport : McpTransport
deriving DecidableEq, Repr

def McpServerConfig.validate (validateUpstreamUrl : String → Except String Unit)
    (config : McpServerConfig) : Except String Unit := do
  ensure (config.name ≠ "") "invalid mcp server name '': must not be empty"
  ensure ('/' ∉ config.name.toList)
    s!"invalid mcp server name '{config.name}': must not contain '/'"
  ensure (config.name ≠ "sse")
    s!"invalid mcp server name '{config.name}': reserved (deprecated transport name)"
  match config.transport with
  | .http url =>
    ensure (url ≠ "") s!"mcp server '{config.name}': http url must not be empty"
    (validateUpstreamUrl url).mapError fun reason =>
      s!"mcp server '{config.name}': http url rejected: {reason}"
  | .stdio command =>
    ensure (command ≠ "") s!"mcp server '{config.name}': stdio command must not be empty"

/-- A member's label is valid, and its prefix its own. -/
def validateAggregateMember (key toolPrefix : String) (seen : List (String × String)) :
    Except String (List (String × String)) := do
  ensure (isValidGatewayLabel key)
    (s!"mcp server routing key '{key}' is not a safe aggregate label; "
    ++ "use one non-empty ASCII URI segment containing only lowercase letters, digits, "
    ++ "'-', '.', '_', or '~'")
  match IndexMap.get seen toolPrefix with
  | some other => .error (s!"mcp aggregate: servers '{other}' and '{key}' share tool_prefix "
      ++ s!"'{toolPrefix}' — prefixes must be unique among aggregate members")
  | none => return IndexMap.insert seen toolPrefix key

/-- Its prefix is its own. -/
def memberStep (validateUpstreamUrl : String → Except String Unit)
    (state : List AggregateMember × List (String × String)) (entry : ConfigEntry) :
    Except String (List AggregateMember × List (String × String)) := do
  entry.config.validate validateUpstreamUrl
  if entry.aggregate then
    let seen ← validateAggregateMember entry.key entry.toolPrefix state.2
    return (state.1 ++ [⟨entry.key, entry.toolPrefix, entry.config.transport⟩], seen)
  else return state

/-- The members, or why not. -/
def fromConfigs (validateUpstreamUrl : String → Except String Unit) (entries : List ConfigEntry) :
    Except String (List AggregateMember) :=
  (entries.foldlM (memberStep validateUpstreamUrl) ([], [])).map Prod.fst

/-! ## Calls -/

/-- How a call fails. -/
inductive McpError where
  | badRequest (message : String)
  | notFound (message : String)
  | upstream (status : ℕ) (message : String)
  | other (text : String)
deriving DecidableEq, Repr

def McpError.toString : McpError → String
  | badRequest message => "bad request: " ++ message
  | notFound message => "not found: " ++ message
  | upstream status message => s!"upstream error ({status}): {message}"
  | other text => text

/-- A result is an object. -/
abbrev Fields := List (String × Json)

/-- **The executor of direct calls**: what a member answers to a method. -/
abbrev Inner := AggregateMember → String → Json → Except McpError Fields

/-- The parameters of a call, one of them replaced. -/
def withParam (params : Json) (key value : String) : Json :=
  match params with
  | .object fields => .object (IndexMap.insert fields key (.string value))
  | other => other

/-! ## Cache policy -/

/-- How long an answer was held, in nanoseconds: by the merge, and since. -/
structure Holding where
  member : AggregateMember → ℕ
  merge : ℕ

/-- A result that was kept for a while. -/
def ageCacheableResult (result : Fields) (elapsed : ℕ) : Fields :=
  match (IndexMap.get result "ttlMs").bind Json.asU64 with
  | none => result
  | some ttl => IndexMap.insert result "ttlMs"
      (.number (.posInt (UInt64.ofNat ((ttl * 1000000 - elapsed) / 1000000))))

/-- How long an answer lasts. -/
structure AggregateCachePolicy where
  ttlMs : Option ℕ := none
  shared : Bool := true
deriving DecidableEq, Repr

namespace AggregateCachePolicy

def observeFailure (_ : AggregateCachePolicy) : AggregateCachePolicy := ⟨some 0, false⟩

/-- No longer than any part of it. -/
def observe (policy : AggregateCachePolicy) (result : Fields) : AggregateCachePolicy :=
  match (IndexMap.get result "ttlMs").bind Json.asU64, strField result "cacheScope" with
  | some ttl, some scope =>
    if strField result "resultType" = some "complete" ∧ (scope = "public" ∨ scope = "private") then
      ⟨some (policy.ttlMs.elim ttl (min · ttl)), policy.shared && scope == "public"⟩
    else policy.observeFailure
  | _, _ => policy.observeFailure

def apply (policy : AggregateCachePolicy) (result : Fields) : Fields :=
  let result := IndexMap.insert result "resultType" (.string "complete")
  let result := IndexMap.insert result "ttlMs"
    (.number (.posInt (UInt64.ofNat (policy.ttlMs.getD 0))))
  IndexMap.insert result "cacheScope" (.string (if policy.shared then "public" else "private"))

end AggregateCachePolicy

def emptyListResult (listKey : String) : Fields :=
  ({} : AggregateCachePolicy).apply [(listKey, .array [])]

/-! ## Lists -/

/-- A name behind the prefix of its member. -/
def prefixEntry (member : AggregateMember) (field : String) (entry : Json) : Json :=
  match entry with
  | .object fields =>
    match strField fields field with
    | some name => .object (IndexMap.insert fields field (.string (member.toolPrefix ++ name)))
    | none => entry
  | _ => entry

/-- A skill URI under the label of its member. -/
def labelEntry (member : AggregateMember) (field : String) (entry : Json) : Json :=
  match entry with
  | .object fields =>
    match (strField fields field).filter (startsWith · skillScheme) with
    | some uri =>
      match namespaceUri member.serverName uri with
      | some namespaced => .object (IndexMap.insert fields field (.string namespaced))
      | none => entry
    | none => entry
  | _ => entry

/-- What a list shows of an entry. -/
def shownEntry (member : AggregateMember) (prefixField namespaceField : Option String)
    (entry : Json) : Json :=
  let entry := prefixField.elim entry (prefixEntry member · entry)
  namespaceField.elim entry (labelEntry member · entry)

/-- What is merged so far. -/
structure Merge where
  items : List Json := []
  errors : List Json := []
  policy : AggregateCachePolicy := {}

def Merge.fail (merge : Merge) (member : AggregateMember) (error : String) : Merge :=
  { merge with
    policy := merge.policy.observeFailure
    errors := merge.errors ++
      [.object [("server", .string member.serverName), ("error", .string error)]] }

/-- One answer is merged into a list. -/
def mergeList (holding : Holding) (listKey : String) (shown : AggregateMember → Json → Json)
    (merge : Merge) (outcome : AggregateMember × Except McpError Fields) : Merge :=
  match outcome.2 with
  | .error error => merge.fail outcome.1 error.toString
  | .ok result =>
    match (IndexMap.get result listKey).bind asArray with
    | none => merge.fail outcome.1 s!"upstream response missing or non-array '{listKey}'"
    | some entries => { merge with
        policy := merge.policy.observe (ageCacheableResult result (holding.member outcome.1))
        items := merge.items ++ entries.map (shown outcome.1) }

def Merge.result (merge : Merge) (listKey : String) (elapsed : ℕ) : Fields :=
  let result : Fields := [(listKey, .array merge.items)]
  let result := if merge.errors = [] then result
    else IndexMap.insert result "_bitrouterErrors" (.array merge.errors)
  ageCacheableResult (merge.policy.apply result) elapsed

section Calls

variable (T : Text) (inner : Inner) (holding : Holding) (members : List AggregateMember)

/-- What every member answers. -/
def outcomes (method : String) (params : Json) : List (AggregateMember × Except McpError Fields) :=
  members.map fun member => (member, inner member method params)

/-- The lists of all members. -/
def fanoutList (method : String) (params : Json) (listKey : String)
    (prefixField namespaceField : Option String) : Fields :=
  ((outcomes inner members method params).foldl
    (mergeList holding listKey (shownEntry · prefixField namespaceField)) {}).result listKey
      holding.merge

/-- One list of skills is merged into the list. -/
def mergeSkills (merge : Merge) (outcome : AggregateMember × Except McpError Fields) : Merge :=
  match outcome.2 with
  | .error error => merge.fail outcome.1 error.toString
  | .ok result =>
    let result := ageCacheableResult result (holding.member outcome.1)
    match (IndexMap.get result "skills").bind asArray with
    | none => merge.fail outcome.1 "upstream response missing or non-array 'skills'"
    | some entries =>
      let namespaced := entries.map (namespaceEntry T outcome.1.serverName)
      let merged := { merge with
        policy := merge.policy.observe result
        items := merge.items ++ namespaced.reduceOption }
      let skipped := namespaced.countP Option.isNone
      if 0 < skipped then
        merged.fail outcome.1 (s!"{skipped} skill(s) skipped: only '{skillScheme}' URIs can be "
          ++ "namespaced across members. Reach them on this server's direct route instead.")
      else merged

def fanoutSkills (params : Json) : Fields :=
  ((outcomes inner members "skills/list" params).foldl (mergeSkills T holding) {}).result "skills"
    holding.merge

/-! ## Calls of one member -/

/-- **The member of a prefixed name**, and the parameters with the name it knows. -/
def resolvePrefixed (method : String) (params : Json) :
    Except McpError (AggregateMember × Json) := do
  let name ← orFail ((params.get "name").bind asStr)
    (.badRequest s!"mcp aggregate {method}: params.name is required")
  let found ← orFail (longest AggregateMember.toolPrefix name members)
    (.notFound s!"mcp aggregate {method}: no member prefix matches '{name}'")
  return (found.1, withParam params "name" found.2)

/-- The member is in the name. -/
def prefixedDispatch (method : String) (params : Json) : Except McpError Fields := do
  let (member, params) ← resolvePrefixed members method params
  inner member method params

/-- The first member whose label a URI is under. -/
def labelled (uri : String) : Option (AggregateMember × String) :=
  members.findSome? fun member => (stripLabel member.serverName uri).map (member, ·)

/-- The answer to a call for a skill. It is refused unless it is the skill that
was asked for. -/
def finishSkill (member : AggregateMember) (upstreamUri uri : String) (result : Fields) :
    Except McpError Fields := do
  let server := member.serverName
  let entry ← orFail (IndexMap.get result "skill")
    (.upstream 502 s!"mcp aggregate skills/get: '{server}' returned no 'skill' object")
  let returnedUri ← orFail ((entry.get "uri").bind asStr)
    (.upstream 502 s!"mcp aggregate skills/get: '{server}' returned a skill without a string uri")
  ensure (returnedUri = upstreamUri) (.upstream 502
    (s!"mcp aggregate skills/get: '{server}' returned '{returnedUri}' when "
      ++ s!"'{upstreamUri}' was requested"))
  let namespaced ← orFail (namespaceEntry T server entry) (.upstream 502
    (s!"mcp aggregate skills/get: '{server}' returned a malformed skill entry that "
      ++ s!"cannot be namespaced under '{skillScheme}'"))
  ensure ((namespaced.get "uri").bind asStr = some uri) (.upstream 502
    s!"mcp aggregate skills/get: '{server}' returned a skill that does not map back to '{uri}'")
  let result := IndexMap.insert result "skill" namespaced
  return (({} : AggregateCachePolicy).observe result).apply result

/-- **A skill by its URI.** -/
def getSkill (params : Json) : Except McpError Fields := do
  let uri ← orFail ((params.get "uri").bind asStr)
    (.badRequest "mcp aggregate skills/get: params.uri is required")
  let (member, upstreamUri) ← orFail (labelled members uri)
    (.badRequest (s!"mcp aggregate skills/get: '{uri}' names no configured member. Aggregated "
      ++ s!"skill URIs are '{skillScheme}<server>/<skill-path>/SKILL.md'."))
  let result ← inner member "skills/get" (withParam params "uri" upstreamUri)
  finishSkill T member upstreamUri uri result

/-! ## Resources -/

def matchesTemplatePrefix (uri template : String) : Bool :=
  let literal := String.ofList (template.toList.takeWhile (· ≠ Char.ofNat 123))
  literal ≠ "" && startsWith uri literal

/-- One answer of the search for owners. -/
def ownerStep (listKey : String) (test : Json → Bool) (found : List AggregateMember × List String)
    (outcome : AggregateMember × Except McpError Fields) : List AggregateMember × List String :=
  match outcome.2 with
  | .error error => (found.1, found.2 ++ [s!"{outcome.1.serverName} ({error.toString})"])
  | .ok result =>
    match (IndexMap.get result listKey).bind asArray with
    | none => (found.1, found.2 ++ [s!"{outcome.1.serverName} (missing or non-array '{listKey}')"])
    | some entries => (if entries.any test then found.1 ++ [outcome.1] else found.1, found.2)

/-- The members that list an entry with a property, and those whose list failed. -/
def ownersMatching (method listKey : String) (test : Json → Bool) :
    List AggregateMember × List String :=
  (outcomes inner members method (.object [])).foldl (ownerStep listKey test) ([], [])

/-- The members that list a URI. -/
def indexOwners (uri : String) : Except McpError (List AggregateMember) := do
  let exact := ownersMatching inner members "resources/list" "resources" fun entry =>
    (entry.get "uri").bind asStr = some uri
  let failed := ", ".intercalate exact.2
  ensure (exact.2 = []) (.upstream 502
    (s!"mcp aggregate resources/read: ownership of '{uri}' is indeterminate; resources/list failed "
      ++ s!"for {failed}"))
  if exact.1 ≠ [] then return exact.1
  else
    let templates := ownersMatching inner members "resources/templates/list" "resourceTemplates"
      fun entry => ((entry.get "uriTemplate").bind asStr).any (matchesTemplatePrefix uri)
    let failed := ", ".intercalate templates.2
    ensure (templates.2 = []) (.upstream 502
      (s!"mcp aggregate resources/read: ownership of '{uri}' is indeterminate; "
        ++ s!"resources/templates/list failed for {failed}"))
    return templates.1

/-- **The single owner of a URI**, and the URI as the owner knows it. -/
def resolveOwner (uri : String) : Except McpError (AggregateMember × String) :=
  match labelled members uri with
  | some found => .ok found
  | none => do
    match ← indexOwners inner members uri with
    | [only] => return (only, uri)
    | [] => .error (.badRequest (s!"mcp aggregate resources/read: no configured member enumerates "
        ++ s!"'{uri}'. The aggregate endpoint serves the resources its members publish; "
        ++ "read this one from its server's direct route (POST /mcp/\x7bserver\x7d)."))
    | many =>
      let servers := ", ".intercalate (many.map (·.serverName))
      .error (.badRequest (s!"mcp aggregate resources/read: '{uri}' is served by "
        ++ s!"{many.length} members ({servers}); "
        ++ "the aggregate endpoint will not choose between them. Use the direct "
        ++ "route (POST /mcp/\x7bserver\x7d) to name the one you mean."))

def labelContent (member : AggregateMember) (item : Json) : Json :=
  match item with
  | .object fields =>
    match (strField fields "uri").bind (namespaceUri member.serverName) with
    | some namespaced => .object (IndexMap.insert fields "uri" (.string namespaced))
    | none => item
  | _ => item

def labelContents (member : AggregateMember) (result : Fields) : Fields :=
  match (IndexMap.get result "contents").bind asArray with
  | some contents =>
    IndexMap.insert result "contents" (.array (contents.map (labelContent member)))
  | none => result

/-- The answer to a read. A URI that was rewritten is written back. -/
def finishRead (member : AggregateMember) (upstreamUri uri : String) (result : Fields) : Fields :=
  let result := if upstreamUri ≠ uri then labelContents member result else result
  (({} : AggregateCachePolicy).observe result).apply result

/-- **A resource by its URI.** -/
def readResource (params : Json) : Except McpError Fields := do
  let uri ← orFail ((params.get "uri").bind asStr)
    (.badRequest "mcp aggregate resources/read: params.uri is required")
  let (member, upstreamUri) ← resolveOwner inner members uri
  let result ← inner member "resources/read" (withParam params "uri" upstreamUri)
  return finishRead member upstreamUri uri result

/-! ## The aggregate -/

def emptyAggregate (method : String) : Except McpError Fields :=
  match method with
  | "tools/list" => .ok (emptyListResult "tools")
  | "resources/list" => .ok (emptyListResult "resources")
  | "resources/templates/list" => .ok (emptyListResult "resourceTemplates")
  | "prompts/list" => .ok (emptyListResult "prompts")
  | "skills/list" => .ok (emptyListResult "skills")
  | other => .error (.notFound s!"mcp aggregate {other}: no member servers configured")

/-- **A request to the aggregate.** -/
def dispatchAggregate (method : String) (params : Json) : Except McpError Fields :=
  if members = [] then emptyAggregate method
  else
    match method with
    | "tools/list" =>
      .ok (fanoutList inner holding members method params "tools" (some "name") none)
    | "resources/list" =>
      .ok (fanoutList inner holding members method params "resources" none (some "uri"))
    | "resources/templates/list" => .ok (fanoutList inner holding members method params
        "resourceTemplates" none (some "uriTemplate"))
    | "prompts/list" =>
      .ok (fanoutList inner holding members method params "prompts" (some "name") none)
    | "tools/call" => prefixedDispatch inner members method params
    | "prompts/get" => prefixedDispatch inner members method params
    | "resources/read" => readResource inner members params
    | "skills/list" => .ok (fanoutSkills T inner holding members params)
    | "skills/get" => getSkill T inner members params
    | other => .error (.notFound s!"mcp aggregate {other}: not supported on the aggregate endpoint")

end Calls

end BitRouter.Mcp
