import BitRouter.Mcp.Advertised

/-!
# Round trips through the aggregate

What the aggregate shows, called back through the aggregate. Skill URIs always
reach the member that published them. Names do exactly where no member's name,
behind its prefix, begins with a longer prefix of another member
(`dispatch_roundTrips_iff`); the configuration keeps prefixes distinct, which does
not keep one from being the beginning of another.
-/

namespace BitRouter.Mcp

open StrPrefix (startsWith startsWith_iff)

variable {T : Text} {inner : Inner} {holding : Holding} {members : List AggregateMember}
variable {params : Json}

def namedLists : List (String × String × String) :=
  [("tools/list", "tools", "tools/call"), ("prompts/list", "prompts", "prompts/get")]

/-- **Names round trip**: a name that a member lists, called as it is shown, reaches
that member under the name it listed; and no two members show one name. -/
def NamesRoundTrip (T : Text) (inner : Inner) (holding : Holding) (members : List AggregateMember)
    (params : Json) : Prop :=
  ∀ list ∈ namedLists, ∀ m ∈ members, ∀ name ∈ namesOf inner list.1 list.2.1 params m,
    (∀ fields, IndexMap.get fields "name" = some (.string (m.toolPrefix ++ name)) →
      Reaches (fun inner => dispatchAggregate T inner holding members list.2.2 (.object fields)) m
        list.2.2 (.object (IndexMap.insert fields "name" (.string name))) .ok)
    ∧ ∀ m' ∈ members, ∀ name' ∈ namesOf inner list.1 list.2.1 params m',
      m.toolPrefix ++ name = m'.toolPrefix ++ name' → m = m'

/-- **No name is taken for another's**: a member whose prefix a shown name begins
with, and whose prefix is longer than that of the member that lists it, is that
member. -/
def Unshadowed (inner : Inner) (members : List AggregateMember) (params : Json) : Prop :=
  ∀ list ∈ namedLists, ∀ m ∈ members, ∀ name ∈ namesOf inner list.1 list.2.1 params m,
    ∀ m' ∈ members, startsWith (m.toolPrefix ++ name) m'.toolPrefix = true →
      startsWith m'.toolPrefix m.toolPrefix = true → m' = m

/-! ## Requests -/

/-- A merge of no answers is stale from the start, however long it is held. -/
theorem result_nil (listKey : String) (elapsed : ℕ) :
    ({} : Merge).result listKey elapsed = emptyListResult listKey := by
  have httl : IndexMap.get (emptyListResult listKey) "ttlMs" = some (.number (.posInt 0)) := by
    unfold emptyListResult AggregateCachePolicy.apply
    rw [IndexMap.get_insert_of_ne _ _ (by decide), IndexMap.get_insert_self]
    rfl
  show ageCacheableResult (emptyListResult listKey) elapsed = emptyListResult listKey
  unfold ageCacheableResult
  rw [httl]
  show IndexMap.insert _ _
    (Json.number (.posInt (UInt64.ofNat ((0 * 1000000 - elapsed) / 1000000)))) = _
  rw [Nat.zero_mul, Nat.zero_sub, Nat.zero_div]
  exact IndexMap.insert_of_get_eq_some httl

theorem dispatch_fanoutList {method listKey : String} {prefixField namespaceField : Option String}
    (hempty : emptyAggregate method = .ok (emptyListResult listKey))
    (hsome : members ≠ [] → dispatchAggregate T inner holding members method params
      = .ok (fanoutList inner holding members method params listKey prefixField namespaceField)) :
    dispatchAggregate T inner holding members method params
      = .ok (fanoutList inner holding members method params listKey prefixField
          namespaceField) := by
  by_cases hmembers : members = []
  · subst hmembers
    exact (if_pos rfl).trans
      (hempty.trans (congrArg Except.ok (result_nil listKey holding.merge).symm))
  · exact hsome hmembers

theorem dispatch_tools : dispatchAggregate T inner holding members "tools/list" params
    = .ok (fanoutList inner holding members "tools/list" params "tools" (some "name") none) :=
  dispatch_fanoutList rfl fun hmembers => if_neg hmembers

theorem dispatch_prompts : dispatchAggregate T inner holding members "prompts/list" params
    = .ok (fanoutList inner holding members "prompts/list" params "prompts" (some "name") none) :=
  dispatch_fanoutList rfl fun hmembers => if_neg hmembers

theorem dispatch_resources : dispatchAggregate T inner holding members "resources/list" params
    = .ok (fanoutList inner holding members "resources/list" params "resources"
        none (some "uri")) :=
  dispatch_fanoutList rfl fun hmembers => if_neg hmembers

theorem dispatch_templates :
    dispatchAggregate T inner holding members "resources/templates/list" params
    = .ok (fanoutList inner holding members "resources/templates/list" params
      "resourceTemplates" none
      (some "uriTemplate")) :=
  dispatch_fanoutList rfl fun hmembers => if_neg hmembers

theorem dispatch_skills : dispatchAggregate T inner holding members "skills/list" params
    = .ok (fanoutSkills T inner holding members params) := by
  by_cases hmembers : members = []
  · subst hmembers
    exact (if_pos rfl).trans (congrArg Except.ok (result_nil "skills" holding.merge).symm)
  · exact if_neg hmembers

theorem dispatch_call {list : String × String × String} (hlist : list ∈ namedLists)
    (hmembers : members ≠ []) {fields : Fields} :
    dispatchAggregate T inner holding members list.2.2 (.object fields)
      = prefixedDispatch inner members list.2.2 (.object fields) := by
  rcases List.mem_cons.mp hlist with rfl | hlist
  · exact if_neg hmembers
  · obtain rfl := List.mem_singleton.mp hlist
    exact if_neg hmembers

theorem namesRoundTrip_iff (h : Admitted members) :
    NamesRoundTrip T inner holding members params ↔ Unshadowed inner members params := by
  refine forall_congr' fun list => forall_congr' fun hlist => ?_
  constructor
  · intro hround m hm name hname
    have hreaches := (hround m hm name hname).1 [("name", .string (m.toolPrefix ++ name))] rfl
    simp only [dispatch_call hlist (List.ne_nil_of_mem hm)] at hreaches
    have hresolved := reaches_prefixedDispatch_iff.mp hreaches
    exact (resolvePrefixed_eq_ok h hm rfl).mp hresolved
  · intro hunshadowed m hm name hname
    refine ⟨fun fields hfields => ?_, fun m' hm' name' hname' hsame => ?_⟩
    · simp only [dispatch_call hlist (List.ne_nil_of_mem hm)]
      have hparam : ((Json.object fields).get "name").bind asStr = some (m.toolPrefix ++ name) := by
        rw [Json.get, Json.asObject, Option.bind_some, hfields]
        rfl
      exact reaches_prefixedDispatch_iff.mpr
        ((resolvePrefixed_eq_ok h hm hparam).mpr (hunshadowed m hm name hname))
    · -- both prefixes begin the one name, so one of them begins the other
      have hstart : startsWith (m.toolPrefix ++ name) m.toolPrefix = true :=
        startsWith_iff.mpr ⟨name, rfl⟩
      have hstart' : startsWith (m.toolPrefix ++ name) m'.toolPrefix = true :=
        startsWith_iff.mpr ⟨name', hsame⟩
      rcases StrPrefix.startsWith_total hstart hstart' with hlonger | hlonger
      · exact hunshadowed m' hm' name' hname' m hm (hsame ▸ hstart) hlonger
      · exact (hunshadowed m hm name hname m' hm' hstart' hlonger).symm

/-- **Skill URIs round trip**: one that a list shows is under the label of a member
that published it, and read or fetched back it reaches that member as it was
published. -/
structure SkillsRoundTrip (T : Text) (inner : Inner) (holding : Holding)
    (members : List AggregateMember) (params : Json) : Prop where
  resources : ∀ list ∈ [("resources/list", "resources", "uri"),
      ("resources/templates/list", "resourceTemplates", "uriTemplate")],
    ∃ result, dispatchAggregate T inner holding members list.1 params = .ok result ∧
      ∀ shown ∈ (listed result list.2.1).filterMap (entryStr list.2.2),
        startsWith shown skillScheme = true →
        ∃ m ∈ members, ∃ entry ∈ (enumerated inner list.1 list.2.1 params m).getD [],
          ∃ published, entryStr list.2.2 entry = some published ∧
            namespaceUri m.serverName published = some shown
  skills : ∃ result, dispatchAggregate T inner holding members "skills/list" params = .ok result ∧
    ∀ shown ∈ listed result "skills", ∃ m ∈ members,
      ∃ entry ∈ (enumerated inner "skills/list" "skills" params m).getD [],
        Relabelled m.serverName entry shown
  back : ∀ m ∈ members, ∀ published uri, namespaceUri m.serverName published = some uri →
    ∀ fields, IndexMap.get fields "uri" = some (.string uri) →
      Reaches (fun inner => dispatchAggregate T inner holding members "resources/read"
          (.object fields)) m "resources/read"
          (.object (IndexMap.insert fields "uri" (.string published)))
          (fun result => .ok (finishRead m published uri result))
      ∧ Reaches (fun inner => dispatchAggregate T inner holding members "skills/get"
          (.object fields)) m "skills/get"
          (.object (IndexMap.insert fields "uri" (.string published)))
          (finishSkill T m published uri)
      ∧ ∀ result out, finishSkill T m published uri result = .ok out → skillUri out = some uri

theorem skillsRoundTrip (h : Admitted members) :
    SkillsRoundTrip T inner holding members params where
  resources list hlist := by
    rcases List.mem_cons.mp hlist with rfl | hlist
    · exact ⟨_, dispatch_resources, fun shown hshown hskill =>
        shown_uri_fanout h (by decide) hshown hskill⟩
    · obtain rfl := List.mem_singleton.mp hlist
      exact ⟨_, dispatch_templates, fun shown hshown hskill =>
        shown_uri_fanout h (by decide) hshown hskill⟩
  skills := ⟨_, dispatch_skills, fun _ hshown => shown_skill hshown⟩
  back m hm published uri huri fields hfields := by
    have hmembers : members ≠ [] := List.ne_nil_of_mem hm
    refine ⟨fun inner => ?_, fun inner => ?_, fun _ _ => skillUri_of_finishSkill⟩
    · exact (if_neg hmembers).trans (reaches_readResource h hm huri hfields inner)
    · exact (if_neg hmembers).trans (reaches_getSkill h hm huri hfields inner)

/-- **Other URIs reach their owner**, as they are, and are refused where there is
none. -/
def OthersReachOwner (T : Text) (holding : Holding) (members : List AggregateMember) : Prop :=
  ∀ (inner : Inner) (uri : String) (fields : Fields), labelled members uri = none →
    IndexMap.get fields "uri" = some (.string uri) →
    (∀ m, Owns inner members uri m →
      dispatchAggregate T inner holding members "resources/read" (.object fields)
        = (inner m "resources/read" (.object (IndexMap.insert fields "uri" (.string uri)))).bind
          fun result => .ok (finishRead m uri uri result))
    ∧ ((∀ m, ¬ Owns inner members uri m) →
      ∃ error, dispatchAggregate T inner holding members "resources/read" (.object fields)
        = .error error)

theorem othersReachOwner : OthersReachOwner T holding members := by
  intro inner uri fields hlabel hfields
  by_cases hmembers : members = []
  · -- with no members nothing is owned, and the request is refused
    subst hmembers
    refine ⟨fun m howns => ?_, fun _ => ⟨_, if_pos rfl⟩⟩
    obtain ⟨-, hsingle | ⟨-, -, hsingle⟩⟩ := howns
    · cases hsingle
    · cases hsingle
  refine ⟨fun m howns => ?_, fun hnone => ?_⟩
  · exact (if_neg hmembers).trans
      (readResource_of_owner hfields (resolveOwner_of_owns hlabel howns))
  · obtain ⟨error, herror⟩ := resolveOwner_of_unowned hlabel hnone
    exact ⟨error, (if_neg hmembers).trans (readResource_of_error hfields herror)⟩

def listMethods : List String :=
  ["tools/list", "prompts/list", "resources/list", "resources/templates/list", "skills/list"]

theorem advertised_dispatch {method : String} (hmethod : method ∈ listMethods) : ∃ result,
    dispatchAggregate T inner holding members method params = .ok result ∧
      Advertised inner members method params result := by
  simp only [listMethods, List.mem_cons, List.not_mem_nil, or_false] at hmethod
  obtain rfl | rfl | rfl | rfl | rfl := hmethod
  · exact ⟨_, dispatch_tools, advertised_fanout⟩
  · exact ⟨_, dispatch_prompts, advertised_fanout⟩
  · exact ⟨_, dispatch_resources, advertised_fanout⟩
  · exact ⟨_, dispatch_templates, advertised_fanout⟩
  · exact ⟨_, dispatch_skills, advertised_fanoutSkills⟩

/-- The names that a merged list shows. -/
theorem shownNames_dispatch {list : String × String × String} (hlist : list ∈ namedLists) :
    ∃ result, dispatchAggregate T inner holding members list.1 params = .ok result ∧
      (listed result list.2.1).filterMap (entryStr "name") = members.flatMap fun m =>
        (namesOf inner list.1 list.2.1 params m).map (m.toolPrefix ++ ·) := by
  rcases List.mem_cons.mp hlist with rfl | hlist
  · exact ⟨_, dispatch_tools, shownNames_fanout (by decide)⟩
  · obtain rfl := List.mem_singleton.mp hlist
    exact ⟨_, dispatch_prompts, shownNames_fanout (by decide)⟩

/-- **The aggregate round trips** the names it shows exactly where none is shadowed;
and whatever the prefixes are, it shows the names of its members behind their
prefixes, its skill URIs round trip, other URIs reach their owner, and a merged
list advertises nothing that a member does not. -/
theorem dispatch_roundTrips_iff {validateUpstreamUrl : String → Except String Unit}
    {entries : List ConfigEntry} (hkeys : (entries.map (·.key)).Nodup)
    (hconfig : fromConfigs validateUpstreamUrl entries = .ok members) :
    (NamesRoundTrip T inner holding members params ↔ Unshadowed inner members params)
    ∧ (∀ list ∈ namedLists, ∃ result,
        dispatchAggregate T inner holding members list.1 params = .ok result ∧
          (listed result list.2.1).filterMap (entryStr "name") = members.flatMap fun m =>
            (namesOf inner list.1 list.2.1 params m).map (m.toolPrefix ++ ·))
    ∧ SkillsRoundTrip T inner holding members params
    ∧ OthersReachOwner T holding members
    ∧ ∀ method ∈ listMethods, ∃ result,
        dispatchAggregate T inner holding members method params = .ok result ∧
          Advertised inner members method params result :=
  have hadmitted := admitted_of_fromConfigs hkeys hconfig
  ⟨namesRoundTrip_iff hadmitted, fun _ hlist => shownNames_dispatch hlist,
    skillsRoundTrip hadmitted, othersReachOwner, fun _ hmethod => advertised_dispatch hmethod⟩

namespace Configured

/-- A server run by a command, in the aggregate under its default prefix. -/
def entry (key : String) : ConfigEntry := ⟨key, ⟨key, .stdio "npx"⟩, true, key ++ "__"⟩

def member (key : String) : AggregateMember := ⟨key, key ++ "__", .stdio "npx"⟩

/-- A server with one tool. -/
def withTool (tools : AggregateMember → String) : Inner := fun m method _ =>
  if method = "tools/list" then
    .ok [("tools", .array [.object [("name", .string (tools m))]])]
  else .error (.notFound method)

def text : Text := ⟨fun _ => none, fun c => c.isLower || c.isDigit⟩

def atOnce : Holding := ⟨fun _ => 0, 0⟩

def located (uri : String) : Json := .object [("uri", .string uri)]

/-- A server that lists a tool, a skill and a file of its own. -/
def serving : Inner := fun m method _ =>
  if method = "tools/list" then
    .ok [("tools", .array [.object [("name", .string "search")]])]
  else if method = "resources/list" then
    .ok [("resources", .array [located "skill://notes/SKILL.md",
      located ("file:///" ++ m.serverName)])]
  else if method = "resources/templates/list" then
    .ok [("resourceTemplates", .array [])]
  else if method = "resources/read" then
    .ok [("contents", .array [located ("file:///" ++ m.serverName)])]
  else .error (.notFound method)

def servers : List AggregateMember := [member "a", member "b", member "docs"]

/-- Three servers none of whose prefixes begins another: their tools are apart, a skill
of one is read back from it under its own URI, and so is a file that only one has. -/
theorem roundTrips_apart :
    NamesRoundTrip text serving atOnce servers (.object [])
    ∧ (∃ result, dispatchAggregate text serving atOnce servers "tools/list" (.object [])
        = .ok result
      ∧ (listed result "tools").filterMap (entryStr "name")
        = ["a__search", "b__search", "docs__search"])
    ∧ SkillsRoundTrip text serving atOnce servers (.object [])
    ∧ (∀ fields, IndexMap.get fields "uri" = some (.string "skill://docs/notes/SKILL.md") →
      Reaches (fun inner => dispatchAggregate text inner atOnce servers "resources/read"
          (.object fields)) (member "docs") "resources/read"
        (.object (IndexMap.insert fields "uri" (.string "skill://notes/SKILL.md")))
        (fun result => .ok (finishRead (member "docs") "skill://notes/SKILL.md"
          "skill://docs/notes/SKILL.md" result)))
    ∧ (∀ fields, IndexMap.get fields "uri" = some (.string "file:///b") →
      dispatchAggregate text serving atOnce servers "resources/read" (.object fields)
        = .ok (finishRead (member "b") "file:///b" "file:///b"
          [("contents", .array [located "file:///b"])]))
    ∧ ∀ method ∈ listMethods, ∃ result,
      dispatchAggregate text serving atOnce servers method (.object []) = .ok result
        ∧ Advertised serving servers method (.object []) result := by
  obtain ⟨hnames, hshown, hskills, hothers, hadvertised⟩ :=
    @dispatch_roundTrips_iff text serving atOnce servers (.object []) (fun _ => .ok ())
      [entry "a", entry "b", entry "docs"] (by decide) rfl
  have hunshadowed : Unshadowed serving servers (.object []) := by
    unfold Unshadowed
    decide
  refine ⟨hnames.mpr hunshadowed, ?_, hskills, fun fields hfields => ?_,
    fun fields hfields => ?_, hadvertised⟩
  · obtain ⟨result, hresult, hlisted⟩ := hshown _ List.mem_cons_self
    exact ⟨result, hresult, hlisted.trans (by decide)⟩
  · exact (hskills.back (member "docs") (by decide) "skill://notes/SKILL.md" _ (by decide)
      fields hfields).1
  · have howns : Owns serving servers "file:///b" (member "b") :=
      ⟨by unfold ListsResources; decide, Or.inl (by decide)⟩
    exact (hothers serving "file:///b" fields (by decide) hfields).1 (member "b") howns

/-- **A name is taken for another's**: the first server lists `b__x`, shown as
`a__b__x`, and the call of it goes to the second, as `x`. -/
theorem not_namesRoundTrip :
    fromConfigs (fun _ => .ok ()) [entry "a", entry "a__b"] = .ok [member "a", member "a__b"]
    ∧ "b__x" ∈ namesOf (withTool fun m => if m.serverName = "a" then "b__x" else "x") "tools/list"
        "tools" (.object []) (member "a")
    ∧ resolvePrefixed [member "a", member "a__b"] "tools/call"
        (.object [("name", .string ((member "a").toolPrefix ++ "b__x"))])
      = .ok (member "a__b", .object [("name", .string "x")])
    ∧ ¬ NamesRoundTrip text (withTool fun m => if m.serverName = "a" then "b__x" else "x") atOnce
        [member "a", member "a__b"] (.object []) := by
  refine ⟨rfl, by decide, rfl, fun hround => ?_⟩
  have hlisted := hround _ List.mem_cons_self (member "a") List.mem_cons_self "b__x" (by decide)
  -- both servers show the name
  have hsame := hlisted.2 (member "a__b") (by decide) "x" (by decide) (by decide)
  exact absurd hsame (by decide)

end Configured

end BitRouter.Mcp
