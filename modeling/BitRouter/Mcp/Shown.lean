import BitRouter.Mcp.Dispatch

/-!
# Lists

A merged list shows what the members list, in their order: names behind prefixes
(`shownNames_fanout`), skill URIs under labels (`shown_uri_fanout`, `shown_skill`).
It is advertised as fresh no longer than any member allows and as shared only where
every member does (`Advertised`).
-/

namespace BitRouter.Mcp

open StrPrefix (strip startsWith strip_eq_some startsWith_iff)

variable {T : Text} {inner : Inner} {holding : Holding} {members : List AggregateMember}
variable {m : AggregateMember} {method listKey field uri published : String} {params : Json}
variable {prefixField namespaceField : Option String}

/-- A string member of an entry. -/
def entryStr (field : String) (entry : Json) : Option String := (entry.get field).bind asStr

/-- The entries of a result under a key. -/
def listed (result : Fields) (listKey : String) : List Json :=
  ((IndexMap.get result listKey).bind asArray).getD []

/-! ## What is merged -/

theorem items_mergeList (shown : AggregateMember → Json → Json) (merge : Merge) :
    (mergeList holding listKey shown merge (m, inner m method params)).items
      = merge.items ++ ((enumerated inner method listKey params m).getD []).map (shown m) := by
  unfold mergeList enumerated
  cases inner m method params with
  | error error => exact (List.append_nil _).symm
  | ok result =>
    rw [show (Except.ok result : Except McpError Fields).toOption = some result from rfl,
      Option.bind_some]
    dsimp only
    cases (IndexMap.get result listKey).bind asArray with
    | none => exact (List.append_nil _).symm
    | some entries => rfl

theorem get_ageCacheableResult {result : Fields} {elapsed : ℕ} {key : String} (h : "ttlMs" ≠ key) :
    IndexMap.get (ageCacheableResult result elapsed) key = IndexMap.get result key := by
  unfold ageCacheableResult
  split
  · rfl
  · exact IndexMap.get_insert_of_ne _ _ h

theorem items_mergeSkills (merge : Merge) :
    (mergeSkills T holding merge (m, inner m "skills/list" params)).items
      = merge.items ++ ((enumerated inner "skills/list" "skills" params m).getD []).filterMap
        (namespaceEntry T m.serverName) := by
  unfold mergeSkills enumerated
  cases inner m "skills/list" params with
  | error error => exact (List.append_nil _).symm
  | ok result =>
    rw [show (Except.ok result : Except McpError Fields).toOption = some result from rfl,
      Option.bind_some]
    dsimp only
    rw [get_ageCacheableResult (by decide)]
    cases (IndexMap.get result "skills").bind asArray with
    | none => exact (List.append_nil _).symm
    | some entries =>
      dsimp only
      have hreduce : (entries.map (namespaceEntry T m.serverName)).reduceOption
          = entries.filterMap (namespaceEntry T m.serverName) := by
        show (entries.map (namespaceEntry T m.serverName)).filterMap id = _
        rw [List.filterMap_map]
        rfl
      rw [Option.getD_some, hreduce]
      split <;> rfl

/-- Merging all answers. -/
theorem items_foldl {step : Merge → AggregateMember × Except McpError Fields → Merge}
    {added : AggregateMember → List Json}
    (hstep : ∀ merge m, (step merge (m, inner m method params)).items = merge.items ++ added m)
    (merge : Merge) : ((outcomes inner members method params).foldl step merge).items
      = merge.items ++ members.flatMap added := by
  induction members generalizing merge with
  | nil => exact (List.append_nil _).symm
  | cons m members ih =>
    show ((outcomes inner members method params).foldl step
      (step merge (m, inner m method params))).items
      = _
    rw [ih, hstep, List.flatMap_cons, List.append_assoc]

theorem listed_result {merge : Merge} {elapsed : ℕ}
    (hkey : listKey ∉ ["_bitrouterErrors", "resultType", "ttlMs", "cacheScope"]) :
    listed (merge.result listKey elapsed) listKey = merge.items := by
  simp only [List.mem_cons, not_or] at hkey
  obtain ⟨herrors, htype, httl, hscope, -⟩ := hkey
  unfold listed Merge.result
  rw [get_ageCacheableResult (Ne.symm httl),
    get_apply_of_ne (Ne.symm htype) (Ne.symm httl) (Ne.symm hscope)]
  split
  · rw [IndexMap.get, if_pos rfl]
    rfl
  · rw [IndexMap.get_insert_of_ne _ _ (Ne.symm herrors), IndexMap.get, if_pos rfl]
    rfl

/-- **What a merged list shows.** -/
theorem listed_fanout (hkey : listKey ∉ ["_bitrouterErrors", "resultType", "ttlMs", "cacheScope"]) :
    listed (fanoutList inner holding members method params listKey prefixField
      namespaceField) listKey
      = members.flatMap fun m => ((enumerated inner method listKey params m).getD []).map
        (shownEntry m prefixField namespaceField) := by
  rw [fanoutList, listed_result hkey]
  exact items_foldl (fun merge m =>
    items_mergeList (m := m) (shownEntry · prefixField namespaceField) merge) {}

theorem listed_fanoutSkills : listed (fanoutSkills T inner holding members params) "skills"
    = members.flatMap fun m =>
      ((enumerated inner "skills/list" "skills" params m).getD []).filterMap
      (namespaceEntry T m.serverName) := by
  rw [fanoutSkills, listed_result (by decide)]
  exact items_foldl (fun merge _ => items_mergeSkills merge) {}

/-! ## Names -/

def namesOf (inner : Inner) (method listKey : String) (params : Json) (m : AggregateMember) :
    List String :=
  ((enumerated inner method listKey params m).getD []).filterMap (entryStr "name")

theorem entryStr_prefixEntry (entry : Json) :
    entryStr field (prefixEntry m field entry)
        = (entryStr field entry).map (m.toolPrefix ++ ·) := by
  unfold prefixEntry
  split
  · next fields =>
    split
    · next name hname =>
      rw [entryStr, Json.get, Json.asObject, Option.bind_some, IndexMap.get_insert_self]
      have hentry : entryStr field (.object fields) = some name := hname
      rw [hentry]
      rfl
    · next hnone =>
      have hentry : entryStr field (.object fields) = none := hnone
      rw [hentry]
      rfl
  · next hobject =>
    cases entry with
    | object fields => exact absurd rfl (hobject fields)
    | _ => rfl

/-- **The names a list shows** are those of the members behind their prefixes. -/
theorem shownNames_fanout
    (hkey : listKey ∉ ["_bitrouterErrors", "resultType", "ttlMs", "cacheScope"]) :
    (listed (fanoutList inner holding members method params listKey (some "name") none)
      listKey).filterMap (entryStr "name")
      = members.flatMap fun m =>
          (namesOf inner method listKey params m).map (m.toolPrefix ++ ·) := by
  rw [listed_fanout hkey, List.filterMap_flatMap]
  refine congrArg (members.flatMap ·) (funext fun m => ?_)
  rw [List.filterMap_map, namesOf, List.map_filterMap]
  exact congrArg (List.filterMap · _) (funext fun entry => entryStr_prefixEntry entry)

/-! ## Skill URIs -/

theorem entryStr_labelEntry {shown : String} (hvalid : isValidGatewayLabel m.serverName = true)
    {entry : Json} (hshown : entryStr field (labelEntry m field entry) = some shown)
    (hskill : startsWith shown skillScheme = true) :
    ∃ published, entryStr field entry = some published ∧
      namespaceUri m.serverName published = some shown := by
  unfold labelEntry at hshown
  split at hshown
  · next fields =>
    split at hshown
    · next uri huri =>
      obtain ⟨hpublished, hscheme⟩ := Option.filter_eq_some_iff.mp huri
      obtain ⟨path, hpath⟩ := startsWith_iff.mp hscheme
      have hnamespaced := namespaceUri_eq_some.mpr ⟨hvalid, path, hpath, rfl⟩
      rw [hnamespaced] at hshown
      rw [entryStr, Json.get, Json.asObject, Option.bind_some, IndexMap.get_insert_self] at hshown
      obtain rfl := Option.some.inj hshown
      exact ⟨uri, hpublished, hnamespaced⟩
    · next hnone =>
      -- a skill URI would have been relabelled
      have hfiltered : (strField fields field).filter (startsWith · skillScheme) = some shown :=
        Option.filter_eq_some_iff.mpr ⟨hshown, hskill⟩
      rw [hnone] at hfiltered
      cases hfiltered
  · next hobject =>
    cases entry with
    | object fields => exact absurd rfl (hobject fields)
    | _ => cases hshown

/-- **A skill URI that a list shows** was published by a member, and is under its
label. -/
theorem shown_uri_fanout (hmembers : Admitted members)
    (hkey : listKey ∉ ["_bitrouterErrors", "resultType", "ttlMs", "cacheScope"]) {shown : String}
    (hshown : shown ∈ (listed (fanoutList inner holding members method params listKey none
      (some field)) listKey).filterMap (entryStr field))
    (hskill : startsWith shown skillScheme = true) :
    ∃ m ∈ members, ∃ entry ∈ (enumerated inner method listKey params m).getD [],
      ∃ published, entryStr field entry = some published ∧
        namespaceUri m.serverName published = some shown := by
  rw [listed_fanout hkey] at hshown
  obtain ⟨item, hitem, hstr⟩ := List.mem_filterMap.mp hshown
  obtain ⟨m, hm, hmapped⟩ := List.mem_flatMap.mp hitem
  obtain ⟨entry, hentry, rfl⟩ := List.mem_map.mp hmapped
  obtain ⟨published, hpublished, hnamespaced⟩ :=
    entryStr_labelEntry (hmembers.valid m hm) hstr hskill
  exact ⟨m, hm, entry, hentry, published, hpublished, hnamespaced⟩

def manifestUris (entry : Json) : List String :=
  (((entry.get "resources").bind asArray).getD []).filterMap (entryStr "uri")

/-- **An entry under a label**: its URI and those of its files are. -/
structure Relabelled (label : String) (entry shown : Json) : Prop where
  uri : ∃ published uri, entryStr "uri" entry = some published ∧ entryStr "uri" shown = some uri
    ∧ namespaceUri label published = some uri
  files : ∀ uri ∈ manifestUris shown, ∃ published ∈ manifestUris entry,
    namespaceUri label published = some uri

theorem namespaceResources_files {label root : String} {seen : List String} {bytes : ℕ}
    {resources files : List Json} {includes : Bool}
    (h : namespaceResources T label root uri seen bytes resources = some (files, includes)) :
    ∀ shown ∈ files.filterMap (entryStr "uri"), ∃ published ∈ resources.filterMap (entryStr "uri"),
      namespaceUri label published = some shown := by
  induction resources generalizing seen bytes files includes with
  | nil =>
    obtain ⟨rfl, -⟩ := Prod.mk.inj (Option.some.inj h)
    exact fun _ hshown => absurd hshown List.not_mem_nil
  | cons resource resources ih =>
    obtain ⟨fields, hfields, h⟩ := Option.bind_eq_some_iff.mp h
    obtain ⟨resourceUri, huri, h⟩ := Option.bind_eq_some_iff.mp h
    obtain ⟨digest, -, h⟩ := Option.bind_eq_some_iff.mp h
    obtain ⟨size, -, h⟩ := Option.bind_eq_some_iff.mp h
    split at h
    · cases h
    split at h
    · cases h
    obtain ⟨namespaced, hnamespaced, h⟩ := Option.bind_eq_some_iff.mp h
    obtain ⟨⟨rest, includes'⟩, hrest, h⟩ := Option.bind_eq_some_iff.mp h
    obtain ⟨rfl, -⟩ := Prod.mk.inj (Option.some.inj h)
    have hpublished : entryStr "uri" resource = some resourceUri := by
      rw [entryStr, Json.get, hfields]
      exact huri
    have hhead : entryStr "uri" (.object (IndexMap.insert fields "uri" (.string namespaced)))
        = some namespaced := by
      rw [entryStr, Json.get, Json.asObject, Option.bind_some, IndexMap.get_insert_self]
      rfl
    rw [List.filterMap_cons_some hhead, List.filterMap_cons_some hpublished]
    intro shown hshown
    rcases List.mem_cons.mp hshown with rfl | htail
    · exact ⟨resourceUri, List.mem_cons_self, hnamespaced⟩
    · obtain ⟨published, hmem, hlabel⟩ := ih hrest shown htail
      exact ⟨published, List.mem_cons_of_mem _ hmem, hlabel⟩

theorem relabelled_of_namespaceEntry {label : String} {entry shown : Json}
    (h : namespaceEntry T label entry = some shown) : Relabelled label entry shown := by
  obtain ⟨fields, hfields, h⟩ := Option.bind_eq_some_iff.mp h
  obtain ⟨root, -, h⟩ := Option.bind_eq_some_iff.mp h
  obtain ⟨published, hpublished, h⟩ := Option.bind_eq_some_iff.mp h
  obtain ⟨namespaced, hnamespaced, h⟩ := Option.bind_eq_some_iff.mp h
  obtain ⟨resources, hresources, h⟩ := Option.bind_eq_some_iff.mp h
  have hentry : entryStr "uri" entry = some published := by
    rw [entryStr, Json.get, hfields]
    exact hpublished
  rw [IndexMap.get_insert_of_ne _ _ (by decide)] at hresources
  have hself : IndexMap.get (IndexMap.insert fields "uri" (.string namespaced)) "uri"
      = some (.string namespaced) := IndexMap.get_insert_self _ _ _
  split at h
  · next hdynamic =>
    obtain rfl := Option.some.inj h
    refine ⟨⟨published, namespaced, hentry, ?_, hnamespaced⟩, fun uri huri => ?_⟩
    · rw [entryStr, Json.get, Json.asObject, Option.bind_some, hself]
      rfl
    · -- a dynamic skill has no files
      rw [manifestUris, Json.get, Json.asObject, Option.bind_some,
        IndexMap.get_insert_of_ne _ _ (by decide), hresources, Option.bind_some] at huri
      cases resources with
      | string s => exact absurd huri List.not_mem_nil
      | _ => cases hdynamic
  · obtain ⟨files, hfiles, h⟩ := Option.bind_eq_some_iff.mp h
    split at h
    · cases h
    obtain ⟨⟨namespacedFiles, includes⟩, hmanifest, h⟩ := Option.bind_eq_some_iff.mp h
    dsimp only at h
    split at h
    · obtain rfl := Option.some.inj h
      refine ⟨⟨published, namespaced, hentry, ?_, hnamespaced⟩, fun uri huri => ?_⟩
      · rw [entryStr, Json.get, Json.asObject, Option.bind_some,
          IndexMap.get_insert_of_ne _ _ (by decide), hself]
        rfl
      · rw [manifestUris, Json.get, Json.asObject, Option.bind_some,
          IndexMap.get_insert_self] at huri
        have hold : manifestUris entry = files.filterMap (entryStr "uri") := by
          rw [manifestUris, Json.get, hfields, Option.bind_some, hresources,
            Option.bind_some, hfiles]
          rfl
        rw [hold]
        exact namespaceResources_files hmanifest uri huri
    · cases h

/-- **A skill that the list shows** was published by a member, and is under its
label. -/
theorem shown_skill {shown : Json}
    (hshown : shown ∈ listed (fanoutSkills T inner holding members params) "skills") :
    ∃ m ∈ members, ∃ entry ∈ (enumerated inner "skills/list" "skills" params m).getD [],
      Relabelled m.serverName entry shown := by
  rw [listed_fanoutSkills] at hshown
  obtain ⟨m, hm, hentry⟩ := List.mem_flatMap.mp hshown
  obtain ⟨entry, hentry, hnamespaced⟩ := List.mem_filterMap.mp hentry
  exact ⟨m, hm, entry, hentry, relabelled_of_namespaceEntry hnamespaced⟩

end BitRouter.Mcp
