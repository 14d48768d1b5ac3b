import BitRouter.Data.Json
import BitRouter.Data.Result
import BitRouter.Data.StrPrefix

/-!
# Skill URIs under a label

`skills/protocol.rs`: a gateway shows the skills of a member under its own label.
A label is one URI segment, so it is told from the path behind it, and no other
label can be taken for it (`stripLabel_eq_some`).

An entry moves with its whole manifest. One that is malformed is not shown.
-/

namespace BitRouter.Mcp

open StrPrefix (strip stripEnd startsWith)

/-- The parser of IRIs, and the letters of skill names. -/
structure Text where
  /-- The path and the authority of an absolute IRI. -/
  parse : String → Option (String × Option String)
  /-- Alphanumeric, not upper case, and its own lower case. -/
  plain : Char → Bool

def skillScheme : String := "skill://"

def asStr : Json → Option String
  | .string s => some s
  | _ => none

def asArray : Json → Option (List Json)
  | .array items => some items
  | _ => none

/-- A member that is a string. -/
def strField (fields : List (String × Json)) (key : String) : Option String :=
  (IndexMap.get fields key).bind asStr

/-! ## Labels -/

def isValidGatewayLabel (label : String) : Bool :=
  label ≠ "" && label.toList.all fun c =>
    c.isLower || c.isDigit || c = '-' || c = '.' || c = '_' || c = '~'

/-- A skill under the label of its server. -/
def namespaceUri (label uri : String) : Option String :=
  if isValidGatewayLabel label then
    (strip uri skillScheme).map fun path => skillScheme ++ (label ++ ("/" ++ path))
  else none

/-- The server's own URI of a skill. -/
def stripLabel (label uri : String) : Option String :=
  if isValidGatewayLabel label then
    (((strip uri skillScheme).bind (strip · label)).bind (strip · "/")).map (skillScheme ++ ·)
  else none

/-! ## Names and paths -/

def validAgentSkillName (T : Text) (name : String) : Bool :=
  1 ≤ name.toList.length && name.toList.length ≤ 64
    && name.toList.all (fun c => c = '-' || T.plain c)
    && name.toList.head? ≠ some '-' && name.toList.getLast? ≠ some '-'
    && !(name.toList.zip name.toList.tail).any fun pair => pair.1 = '-' && pair.2 = '-'

def skillResourcePath (T : Text) (uri : String) : Except String String :=
  orFail ((T.parse uri).map Prod.fst) "invalid absolute MCP skill resource URI"

def hexDigit (byte : UInt8) : Option UInt8 :=
  if 48 ≤ byte ∧ byte ≤ 57 then some (byte - 48)
  else if 97 ≤ byte ∧ byte ≤ 102 then some (byte - 87)
  else if 65 ≤ byte ∧ byte ≤ 70 then some (byte - 55)
  else none

/-- `u8::from_str_radix` of two bytes, which allows a leading plus. -/
def hexByte (first second : UInt8) : Option UInt8 :=
  if first = 43 then hexDigit second
  else (hexDigit first).bind fun high => (hexDigit second).map fun low => high * 16 + low

/-- The bytes of a segment, its escapes decoded. -/
def decodeBytes : List UInt8 → Except String (List UInt8)
  | [] => .ok []
  | byte :: rest =>
    if byte = 37 then
      match rest with
      | first :: second :: rest => do
        let decoded ← orFail (hexByte first second) "invalid percent-encoded skill URI"
        return decoded :: (← decodeBytes rest)
      | _ => .error "invalid percent-encoded skill URI"
    else do
      return byte :: (← decodeBytes rest)

/-- Undoes percent encoding. -/
def decodeSkillUriSegment (segment : String) : Except String String := do
  let bytes ← decodeBytes segment.toUTF8.toList
  orFail (String.fromUTF8? bytes.toByteArray) "skill URI segment requires UTF-8"

/-- The directory a skill lies in. -/
def skillUriRoot (T : Text) (uri name : String) : Except String String := do
  let parsed ← orFail (T.parse uri) "invalid MCP skill URI"
  let fileUri := String.ofList (uri.toList.takeWhile fun c => c ≠ '?' ∧ c ≠ '#')
  let root ← orFail (stripEnd fileUri "/SKILL.md") "skill URI must explicitly end in /SKILL.md"
  let pathRoot ← orFail (stripEnd parsed.1 "/SKILL.md") "skill URI has no explicit SKILL.md path"
  let parent? := if pathRoot = "" then parsed.2
    else (pathRoot.toList.splitOn '/').getLast?.map String.ofList
  let parent ← orFail parent? "skill parent directory is missing"
  ensure (validAgentSkillName T name) "skill parent directory does not match frontmatter.name"
  let decoded ← decodeSkillUriSegment parent
  ensure (decoded = name) "skill parent directory does not match frontmatter.name"
  return root

/-- The segments that stand for a directory itself or the one above. -/
def dotSegments : List String := [".", "..", "%2e", ".%2e", "%2e.", "%2e%2e"]

/-- Whether a path leaves its place. -/
def hasDotSegment (T : Text) (uri : String) : Bool :=
  match skillResourcePath T uri with
  | .error _ => true
  | .ok path => (path.toList.splitOn '/').any fun segment =>
      dotSegments.contains (String.ofList (segment.map Char.toLower))

/-! ## Entries -/

/-- The root of an entry that is valid. -/
def validatedSkillRoot (T : Text) (entry : List (String × Json)) : Option String := do
  let uri ← strField entry "uri"
  if !startsWith uri skillScheme || hasDotSegment T uri then none
  else
    let frontmatter ← (IndexMap.get entry "frontmatter").bind Json.asObject
    let name ← strField frontmatter "name"
    let description ← strField frontmatter "description"
    if 1 ≤ description.toList.length ∧ description.toList.length ≤ 1024 then
      (skillUriRoot T uri name).toOption
    else none

/-- Whether a file lies under a root. -/
def resourceBelongsTo (T : Text) (root uri : String) : Bool :=
  startsWith uri skillScheme && !hasDotSegment T uri
    && (strip uri root).any fun suffix => startsWith suffix "/" && 1 < suffix.utf8ByteSize

def validSha256Digest (digest : String) : Bool :=
  (strip digest "sha256:").any fun hex => hex.utf8ByteSize = 64
    && hex.toList.all fun c => c.isDigit || ('a' ≤ c && c ≤ 'f')

def dynamicResources : String := "dynamic"

def maxSkillResources : ℕ := 512

def maxSkillTotalBytes : ℕ := 16777216

/-- The files of a manifest under a label, and whether the skill itself is among
them. -/
def namespaceResources (T : Text) (label root uri : String) :
    List String → ℕ → List Json → Option (List Json × Bool)
  | _, _, [] => some ([], false)
  | seen, bytes, resource :: resources => do
    let fields ← resource.asObject
    let resourceUri ← strField fields "uri"
    let digest ← strField fields "digest"
    let size ← (IndexMap.get fields "size").bind Json.asU64
    if !validSha256Digest digest || seen.contains resourceUri
        || !resourceBelongsTo T root resourceUri then none
    else if maxSkillTotalBytes < bytes + size then none
    else
      let namespaced ← namespaceUri label resourceUri
      let (rest, includes) ←
        namespaceResources T label root uri (resourceUri :: seen) (bytes + size) resources
      return (.object (IndexMap.insert fields "uri" (.string namespaced)) :: rest,
        includes || resourceUri == uri)

/-- **An entry under a label**, with every file of its manifest. -/
def namespaceEntry (T : Text) (label : String) (entry : Json) : Option Json := do
  let fields ← entry.asObject
  let root ← validatedSkillRoot T fields
  let uri ← strField fields "uri"
  let namespaced ← namespaceUri label uri
  let fields := IndexMap.insert fields "uri" (.string namespaced)
  let resources ← IndexMap.get fields "resources"
  if asStr resources = some dynamicResources then return .object fields
  else
    let files ← asArray resources
    if files = [] ∨ maxSkillResources < files.length then none
    else
      let (namespacedFiles, includes) ← namespaceResources T label root uri [] 0 files
      if includes then return .object (IndexMap.insert fields "resources" (.array namespacedFiles))
      else none

end BitRouter.Mcp
