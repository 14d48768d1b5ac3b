import BitRouter.Mcp.Labels

/-!
# Calls

A call of the aggregate is a call of one member (`Reaches`). A prefixed name
reaches the member of the longest prefix, a URI under a label the member of the
label, and any other URI the single member that lists it.
-/

namespace BitRouter.Mcp

open StrPrefix (strip startsWith longest strip_eq_some startsWith_iff)

variable {T : Text} {inner : Inner} {holding : Holding} {members : List AggregateMember}
variable {m : AggregateMember} {method listKey uri published name : String}

/-- **A call of an aggregate is a call of a member**: whatever the members answer,
the answer is that of this member to these parameters, read by `finish`. -/
def Reaches (call : Inner → Except McpError Fields) (m : AggregateMember) (method : String)
    (params : Json) (finish : Fields → Except McpError Fields) : Prop :=
  ∀ inner, call inner = (inner m method params).bind finish

/-! ## Prefixed names -/

theorem bind_ok {α ε : Type*} (result : Except ε α) : result.bind .ok = result := by
  cases result <;> rfl

theorem reaches_prefixedDispatch_iff {params params' : Json} :
    Reaches (fun inner => prefixedDispatch inner members method params) m method params' .ok ↔
      resolvePrefixed members method params = .ok (m, params') := by
  classical
  constructor
  · intro h
    -- a member that refuses this one call and answers every other
    have hprobe := h fun m₁ _ params₁ =>
      if m₁ = m ∧ params₁ = params' then .error (.other "here") else .ok []
    beta_reduce at hprobe
    rw [bind_ok, if_pos ⟨rfl, rfl⟩] at hprobe
    cases hresolve : resolvePrefixed members method params with
    | error error =>
      have hanswer := h fun _ _ _ => .ok []
      beta_reduce at hanswer
      rw [prefixedDispatch, hresolve] at hanswer
      cases hanswer
    | ok found =>
      obtain ⟨m', params₁⟩ := found
      rw [prefixedDispatch, hresolve] at hprobe
      change (if m' = m ∧ params₁ = params' then _ else _) = _ at hprobe
      split at hprobe
      · next hsame => rw [hsame.1, hsame.2]
      · cases hprobe
  · intro h inner
    show prefixedDispatch inner members method params = _
    rw [prefixedDispatch, h, bind_ok]
    rfl

/-! ## Labelled URIs -/

variable {fields : Fields}

theorem param_object (h : IndexMap.get fields "uri" = some (.string uri)) :
    ((Json.object fields).get "uri").bind asStr = some uri := by
  rw [Json.get, Json.asObject, Option.bind_some, h]
  rfl

theorem readResource_of_owner (huri : IndexMap.get fields "uri" = some (.string uri))
    (howner : resolveOwner inner members uri = .ok (m, published)) :
    readResource inner members (.object fields)
      = (inner m "resources/read" (.object (IndexMap.insert fields "uri" (.string published)))).bind
        (fun result => .ok (finishRead m published uri result)) := by
  rw [readResource, param_object huri]
  show (resolveOwner inner members uri >>= _) = _
  rw [howner]
  rfl

theorem readResource_of_error {error : McpError}
    (huri : IndexMap.get fields "uri" = some (.string uri))
    (howner : resolveOwner inner members uri = .error error) :
    readResource inner members (.object fields) = .error error := by
  rw [readResource, param_object huri]
  show (resolveOwner inner members uri >>= _) = _
  rw [howner]
  rfl

theorem reaches_readResource (h : Admitted members) (hm : m ∈ members)
    (huri : namespaceUri m.serverName published = some uri)
    (hparam : IndexMap.get fields "uri" = some (.string uri)) :
    Reaches (fun inner => readResource inner members (.object fields)) m "resources/read"
      (.object (IndexMap.insert fields "uri" (.string published)))
      (fun result => .ok (finishRead m published uri result)) := by
  refine fun inner => readResource_of_owner hparam ?_
  rw [resolveOwner, labelled_of_namespaceUri h hm huri]

/-- The URI of the skill of an answer. -/
def skillUri (result : Fields) : Option String :=
  ((IndexMap.get result "skill").bind (·.get "uri")).bind asStr

theorem get_apply_of_ne {policy : AggregateCachePolicy} {result : Fields} {key : String}
    (htype : "resultType" ≠ key) (httl : "ttlMs" ≠ key) (hscope : "cacheScope" ≠ key) :
    IndexMap.get (policy.apply result) key = IndexMap.get result key := by
  unfold AggregateCachePolicy.apply
  rw [IndexMap.get_insert_of_ne _ _ hscope, IndexMap.get_insert_of_ne _ _ httl,
    IndexMap.get_insert_of_ne _ _ htype]

/-- **A skill by its URI**: the member that published it is asked for it. -/
theorem reaches_getSkill (h : Admitted members) (hm : m ∈ members)
    (huri : namespaceUri m.serverName published = some uri)
    (hparam : IndexMap.get fields "uri" = some (.string uri)) :
    Reaches (fun inner => getSkill T inner members (.object fields)) m "skills/get"
      (.object (IndexMap.insert fields "uri" (.string published)))
      (finishSkill T m published uri) := by
  intro inner
  show getSkill T inner members (.object fields) = _
  rw [getSkill, param_object hparam]
  show (orFail (labelled members uri) _ >>= _) = _
  rw [labelled_of_namespaceUri h hm huri]
  rfl

theorem skillUri_of_finishSkill {result out : Fields}
    (h : finishSkill T m published uri result = .ok out) : skillUri out = some uri := by
  obtain ⟨entry, -, h⟩ := bind_eq_ok.mp h
  obtain ⟨returnedUri, -, h⟩ := bind_eq_ok.mp h
  obtain ⟨_, -, h⟩ := bind_eq_ok.mp h
  obtain ⟨namespaced, -, h⟩ := bind_eq_ok.mp h
  obtain ⟨_, hback, h⟩ := bind_eq_ok.mp h
  obtain rfl := pure_eq_ok.mp h
  rw [skillUri, get_apply_of_ne (by decide) (by decide) (by decide), IndexMap.get_insert_self]
  exact ensure_eq_ok.mp hback

/-! ## Listed URIs -/

/-- What a member lists, if it answers with a list. -/
def enumerated (inner : Inner) (method listKey : String) (params : Json) (m : AggregateMember) :
    Option (List Json) :=
  (inner m method params).toOption.bind fun result => (IndexMap.get result listKey).bind asArray

/-- The members that list an entry with a property. -/
def owners (inner : Inner) (members : List AggregateMember) (method listKey : String)
    (test : Json → Bool) : List AggregateMember :=
  members.filter fun m => (enumerated inner method listKey (.object []) m).any (·.any test)

theorem ownerStep_of_enumerated {test : Json → Bool} {found : List AggregateMember × List String}
    {entries : List Json} (h : enumerated inner method listKey (.object []) m = some entries) :
    ownerStep listKey test found (m, inner m method (.object []))
      = (if entries.any test then found.1 ++ [m] else found.1, found.2) := by
  obtain ⟨result, hresult, hentries⟩ := Option.bind_eq_some_iff.mp h
  rw [ownerStep, toOption_eq_some.mp hresult]
  dsimp only
  rw [hentries]

theorem ownerStep_of_failed (test : Json → Bool) (found : List AggregateMember × List String)
    (h : enumerated inner method listKey (.object []) m = none) :
    ∃ failure, ownerStep listKey test found (m, inner m method (.object []))
      = (found.1, found.2 ++ [failure]) := by
  unfold ownerStep
  unfold enumerated at h
  cases hanswer : inner m method (.object []) with
  | error error => exact ⟨_, rfl⟩
  | ok result =>
    rw [hanswer] at h
    have hnone : (IndexMap.get result listKey).bind asArray = none := h
    dsimp only
    rw [hnone]
    exact ⟨_, rfl⟩

theorem owners_cons (test : Json → Bool) : owners inner (m :: members) method listKey test =
    if (enumerated inner method listKey (.object []) m).any (·.any test) then
      m :: owners inner members method listKey test
    else owners inner members method listKey test :=
  List.filter_cons

theorem foldl_ownerStep (test : Json → Bool) (found : List AggregateMember × List String) :
    ∃ failures, (outcomes inner members method (.object [])).foldl (ownerStep listKey test) found
        = (found.1 ++ owners inner members method listKey test, found.2 ++ failures) ∧
      (failures = [] ↔ ∀ m ∈ members, enumerated inner method listKey (.object []) m ≠ none) := by
  induction members generalizing found with
  | nil =>
    refine ⟨[], ?_, fun _ _ hm => absurd hm List.not_mem_nil, fun _ => rfl⟩
    show found = (found.1 ++ [], found.2 ++ [])
    rw [List.append_nil, List.append_nil]
  | cons m members ih =>
    show ∃ failures, (outcomes inner members method (.object [])).foldl (ownerStep listKey test)
      (ownerStep listKey test found (m, inner m method (.object []))) = _ ∧ _
    cases hentries : enumerated inner method listKey (.object []) m with
    | none =>
      obtain ⟨failure, hstep⟩ := ownerStep_of_failed test found hentries
      obtain ⟨failures, hfold, -⟩ := ih (found.1, found.2 ++ [failure])
      refine ⟨failure :: failures, ?_, ?_⟩
      · rw [hstep, hfold, owners_cons, hentries, List.append_assoc]
        rfl
      · exact ⟨fun h => absurd h (List.cons_ne_nil _ _),
          fun h => absurd hentries (h m List.mem_cons_self)⟩
    | some entries =>
      rw [ownerStep_of_enumerated hentries]
      obtain ⟨failures, hfold, hfailures⟩ :=
        ih (if entries.any test then found.1 ++ [m] else found.1, found.2)
      refine ⟨failures, ?_, ?_⟩
      · rw [hfold, owners_cons, hentries, Option.any_some]
        split
        · rw [List.append_assoc, List.singleton_append]
        · rfl
      · rw [hfailures, List.forall_mem_cons]
        exact ⟨fun h => ⟨by rw [hentries]; exact Option.some_ne_none _, h⟩, fun h => h.2⟩

theorem ownersMatching_eq (inner : Inner) (members : List AggregateMember)
    (method listKey : String) (test : Json → Bool) :
    ∃ failures, ownersMatching inner members method listKey test
        = (owners inner members method listKey test, failures) ∧
      (failures = [] ↔ ∀ m ∈ members, enumerated inner method listKey (.object []) m ≠ none) :=
  foldl_ownerStep test ([], [])

/-- The members that list a URI itself. -/
def exactOwners (inner : Inner) (members : List AggregateMember) (uri : String) :
    List AggregateMember :=
  owners inner members "resources/list" "resources" fun entry =>
    (entry.get "uri").bind asStr = some uri

/-- The members that list a template a URI falls under. -/
def templateOwners (inner : Inner) (members : List AggregateMember) (uri : String) :
    List AggregateMember :=
  owners inner members "resources/templates/list" "resourceTemplates" fun entry =>
    ((entry.get "uriTemplate").bind asStr).any (matchesTemplatePrefix uri)

def ListsResources (inner : Inner) (members : List AggregateMember) : Prop :=
  ∀ m ∈ members, enumerated inner "resources/list" "resources" (.object []) m ≠ none

/-- Every member answers with a list of templates. -/
def ListsTemplates (inner : Inner) (members : List AggregateMember) : Prop :=
  ∀ m ∈ members, enumerated inner "resources/templates/list" "resourceTemplates"
    (.object []) m ≠ none

/-- **The owners of a URI**: those that list it, or where there are none those that
list a template of it, and no answer where a list has failed. -/
theorem indexOwners_eq_ok {found : List AggregateMember} :
    indexOwners inner members uri = .ok found ↔ ListsResources inner members ∧
      (exactOwners inner members uri ≠ [] ∧ found = exactOwners inner members uri ∨
        exactOwners inner members uri = [] ∧ ListsTemplates inner members ∧
          found = templateOwners inner members uri) := by
  obtain ⟨failures, hexact, hfailures⟩ := ownersMatching_eq inner members "resources/list"
    "resources" fun entry => (entry.get "uri").bind asStr = some uri
  obtain ⟨failures', htemplates, hfailures'⟩ := ownersMatching_eq inner members
    "resources/templates/list" "resourceTemplates"
    fun entry => ((entry.get "uriTemplate").bind asStr).any (matchesTemplatePrefix uri)
  unfold indexOwners
  rw [hexact, htemplates]
  simp only [bind_eq_ok, ensure_eq_ok]
  rw [hfailures]
  constructor
  · rintro ⟨_, hlists, hrest⟩
    refine ⟨hlists, ?_⟩
    split at hrest
    · next hsome => exact .inl ⟨hsome, (pure_eq_ok.mp hrest).symm⟩
    · next hnone =>
      obtain ⟨_, htemplate, hrest⟩ := bind_eq_ok.mp hrest
      exact .inr ⟨not_not.mp hnone, hfailures'.mp (ensure_eq_ok.mp htemplate),
        (pure_eq_ok.mp hrest).symm⟩
  · rintro ⟨hlists, ⟨hsome, rfl⟩ | ⟨hnone, htemplate, rfl⟩⟩
    · exact ⟨(), hlists, if_pos hsome⟩
    · refine ⟨(), hlists, (if_neg (not_not.mpr hnone)).trans ?_⟩
      rw [ensure, if_pos (hfailures'.mpr htemplate)]
      rfl

/-- **The owner of a URI under no label.** -/
def Owns (inner : Inner) (members : List AggregateMember) (uri : String)
    (m : AggregateMember) : Prop :=
  ListsResources inner members ∧ (exactOwners inner members uri = [m] ∨
    exactOwners inner members uri = [] ∧ ListsTemplates inner members
      ∧ templateOwners inner members uri = [m])

theorem indexOwners_singleton_iff :
    indexOwners inner members uri = .ok [m] ↔ Owns inner members uri m := by
  rw [indexOwners_eq_ok, Owns]
  refine and_congr_right fun _ =>
    or_congr ?_ (and_congr_right fun _ => and_congr_right fun _ => eq_comm)
  constructor
  · exact fun h => h.2.symm
  · exact fun h => ⟨h ▸ List.cons_ne_nil _ _, h.symm⟩

theorem resolveOwner_of_owns (hlabel : labelled members uri = none)
    (howns : Owns inner members uri m) : resolveOwner inner members uri = .ok (m, uri) := by
  rw [resolveOwner, hlabel]
  show (indexOwners inner members uri >>= _) = _
  rw [indexOwners_singleton_iff.mpr howns]
  rfl

theorem resolveOwner_of_unowned (hlabel : labelled members uri = none)
    (hnone : ∀ m, ¬ Owns inner members uri m) : ∃ error,
        resolveOwner inner members uri = .error error := by
  rw [resolveOwner, hlabel]
  cases hfound : indexOwners inner members uri with
  | error error => exact ⟨error, rfl⟩
  | ok found =>
    rcases found with _ | ⟨m, _ | ⟨other, rest⟩⟩
    · exact ⟨_, rfl⟩
    · exact absurd (indexOwners_singleton_iff.mp hfound) (hnone m)
    · exact ⟨_, rfl⟩

end BitRouter.Mcp
