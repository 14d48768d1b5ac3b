import BitRouter.Data.Delimited
import BitRouter.Mcp.Aggregate
import Mathlib.Data.List.Nodup

/-!
# Members are told apart

What the configuration admits (`Admitted`): labels that are URI segments, no two
alike, and prefixes no two alike. A label is undone by the one member it belongs
to (`labelled_eq_some`). A prefix is undone by its member unless a longer prefix
of another stands there too (`resolvePrefixed_eq_ok`).
-/

namespace BitRouter.Mcp

open StrPrefix (strip startsWith longest strip_eq_some startsWith_iff)

variable {members : List AggregateMember} {m m' : AggregateMember} {label uri published : String}

/-! ## Admitted members -/

/-- **The members of an accepted configuration.** -/
structure Admitted (members : List AggregateMember) : Prop where
  valid : ∀ m ∈ members, isValidGatewayLabel m.serverName = true
  labels : (members.map (·.serverName)).Nodup
  prefixes : (members.map (·.toolPrefix)).Nodup

theorem Admitted.eq_of_label (h : Admitted members) (hm : m ∈ members) (hm' : m' ∈ members)
    (heq : m.serverName = m'.serverName) : m = m' :=
  List.inj_on_of_nodup_map h.labels hm hm' heq

theorem Admitted.eq_of_prefix (h : Admitted members) (hm : m ∈ members) (hm' : m' ∈ members)
    (heq : m.toolPrefix = m'.toolPrefix) : m = m' :=
  List.inj_on_of_nodup_map h.prefixes hm hm' heq

/-- What the members so far are, some entries having been read. -/
structure Joined (keys : List String) (state : List AggregateMember × List (String × String)) :
    Prop where
  valid : ∀ m ∈ state.1, isValidGatewayLabel m.serverName = true
  labels : (state.1.map (·.serverName)).Sublist keys
  prefixes : (state.1.map (·.toolPrefix)).Nodup
  seen : ∀ m ∈ state.1, IndexMap.get state.2 m.toolPrefix ≠ none

variable {validateUpstreamUrl : String → Except String Unit}

section

variable {state state' : List AggregateMember × List (String × String)} {keys : List String}
  (h : Joined keys state)

include h

theorem Joined.step {entry : ConfigEntry}
    (hstep : memberStep validateUpstreamUrl state entry = .ok state') :
    Joined (keys ++ [entry.key]) state' := by
  obtain ⟨_, -, hstep⟩ := bind_eq_ok.mp hstep
  split at hstep
  · obtain ⟨seen, hseen, hstate⟩ := bind_eq_ok.mp hstep
    obtain rfl := pure_eq_ok.mp hstate
    obtain ⟨_, hlabel, hnew⟩ := bind_eq_ok.mp hseen
    have hvalid : isValidGatewayLabel entry.key = true := ensure_eq_ok.mp hlabel
    split at hnew
    · cases hnew
    next hfresh =>
    obtain rfl := pure_eq_ok.mp hnew
    refine ⟨?_, ?_, ?_, ?_⟩
    · intro m hm
      rcases List.mem_append.mp hm with hold | hnew
      · exact h.valid m hold
      · rw [List.mem_singleton.mp hnew]
        exact hvalid
    · rw [List.map_append]
      exact h.labels.append (List.Sublist.refl _)
    · rw [List.map_append]
      refine List.nodup_append.mpr ⟨h.prefixes, List.nodup_singleton _, ?_⟩
      intro p hp q hq
      obtain rfl := List.mem_singleton.mp hq
      obtain ⟨m, hm, rfl⟩ := List.mem_map.mp hp
      intro heq
      exact h.seen m hm (heq ▸ hfresh)
    · intro m hm
      rw [IndexMap.get_insert]
      split
      · exact Option.some_ne_none _
      · next hother =>
        rcases List.mem_append.mp hm with hold | hnew
        · exact h.seen m hold
        · exact absurd (List.mem_singleton.mp hnew ▸ rfl) hother
  · obtain rfl := pure_eq_ok.mp hstep
    exact ⟨h.valid, h.labels.trans (List.sublist_append_left _ _), h.prefixes, h.seen⟩

theorem Joined.run {entries : List ConfigEntry}
    (hrun : entries.foldlM (memberStep validateUpstreamUrl) state = .ok state') :
    Joined (keys ++ entries.map (·.key)) state' := by
  induction entries generalizing keys state with
  | nil =>
    obtain rfl := pure_eq_ok.mp hrun
    rwa [List.map_nil, List.append_nil]
  | cons entry entries ih =>
    obtain ⟨next, hstep, hrest⟩ := bind_eq_ok.mp hrun
    have hjoined := ih (h.step hstep) hrest
    rwa [List.append_assoc] at hjoined

end

theorem admitted_of_fromConfigs {entries : List ConfigEntry} (hkeys : (entries.map (·.key)).Nodup)
    (h : fromConfigs validateUpstreamUrl entries = .ok members) : Admitted members := by
  obtain ⟨state, hrun, rfl⟩ := map_eq_ok.mp h
  have hempty : Joined [] ([], []) :=
    ⟨fun _ hm => absurd hm List.not_mem_nil, List.Sublist.refl _, List.nodup_nil,
      fun _ hm => absurd hm List.not_mem_nil⟩
  have hjoined := hempty.run hrun
  exact ⟨hjoined.valid, hjoined.labels.nodup hkeys, hjoined.prefixes⟩

/-! ## Labels -/

theorem not_mem_slash_of_valid (h : isValidGatewayLabel label = true) : '/' ∉ label.toList := by
  intro hslash
  rw [isValidGatewayLabel, Bool.and_eq_true] at h
  have hchar := List.all_eq_true.mp h.2 '/' hslash
  exact absurd hchar (by decide)

theorem namespaceUri_eq_some : namespaceUri label published = some uri ↔
    isValidGatewayLabel label = true ∧ ∃ path, published = skillScheme ++ path
      ∧ uri = skillScheme ++ (label ++ ("/" ++ path)) := by
  unfold namespaceUri
  split
  · next hvalid =>
    rw [Option.map_eq_some_iff]
    constructor
    · rintro ⟨path, hpath, rfl⟩
      exact ⟨hvalid, path, strip_eq_some.mp hpath, rfl⟩
    · rintro ⟨-, path, hpath, rfl⟩
      exact ⟨path, strip_eq_some.mpr hpath, rfl⟩
  · next hvalid =>
    constructor
    · rintro ⟨⟩
    · exact fun h => absurd h.1 hvalid

theorem stripLabel_eq_some : stripLabel label uri = some published ↔
    isValidGatewayLabel label = true ∧ ∃ path, uri = skillScheme ++ (label ++ ("/" ++ path))
      ∧ published = skillScheme ++ path := by
  unfold stripLabel
  split
  · next hvalid =>
    simp only [Option.map_eq_some_iff, Option.bind_eq_some_iff, strip_eq_some]
    constructor
    · rintro ⟨path, ⟨tail, ⟨rest, huri, rfl⟩, rfl⟩, rfl⟩
      exact ⟨hvalid, path, huri, rfl⟩
    · rintro ⟨-, path, huri, rfl⟩
      exact ⟨path, ⟨_, ⟨_, huri, rfl⟩, rfl⟩, rfl⟩
  · next hvalid =>
    constructor
    · rintro ⟨⟩
    · exact fun h => absurd h.1 hvalid

/-- **Stripping a label undoes it.** -/
theorem stripLabel_of_namespaceUri (h : namespaceUri label published = some uri) :
    stripLabel label uri = some published := by
  obtain ⟨hvalid, path, rfl, rfl⟩ := namespaceUri_eq_some.mp h
  exact stripLabel_eq_some.mpr ⟨hvalid, path, rfl, rfl⟩

/-- **A URI is under one label only**: the label ends at the first slash. -/
theorem label_unique {label' published' : String} (h : stripLabel label uri = some published)
    (h' : stripLabel label' uri = some published') : label = label' := by
  obtain ⟨hvalid, path, rfl, rfl⟩ := stripLabel_eq_some.mp h
  obtain ⟨hvalid', path', huri, rfl⟩ := stripLabel_eq_some.mp h'
  have hrest := (StrPrefix.append_right_inj skillScheme).mp huri
  rw [← String.toList_inj] at hrest
  simp only [String.toList_append] at hrest
  have hbound : ∀ path : String, Delimited.AtBoundary '/' ("/".toList ++ path.toList) :=
    fun path => Delimited.atBoundary_cons '/' path.toList
  exact String.toList_inj.mp (Delimited.append_inj_of_notMem (not_mem_slash_of_valid hvalid)
    (not_mem_slash_of_valid hvalid') (hbound path) (hbound path') hrest).1

theorem labelled_eq_some (h : Admitted members) (hm : m ∈ members)
    (huri : stripLabel m.serverName uri = some published) :
    labelled members uri = some (m, published) := by
  cases hfound : labelled members uri with
  | none =>
    have hnone := List.findSome?_eq_none_iff.mp hfound m hm
    rw [huri] at hnone
    cases hnone
  | some found =>
    obtain ⟨m', hm', hfound'⟩ := List.exists_of_findSome?_eq_some hfound
    obtain ⟨published', hstrip, rfl⟩ := Option.map_eq_some_iff.mp hfound'
    obtain rfl := h.eq_of_label hm' hm (label_unique hstrip huri)
    rw [Option.some.inj (hstrip.symm.trans huri)]

theorem labelled_of_namespaceUri (h : Admitted members) (hm : m ∈ members)
    (huri : namespaceUri m.serverName published = some uri) :
    labelled members uri = some (m, published) :=
  labelled_eq_some h hm (stripLabel_of_namespaceUri huri)

/-! ## Prefixes -/

/-- **The member of a prefixed name**: the one of the longest prefix. -/
theorem resolvePrefixed_eq_ok (h : Admitted members) (hm : m ∈ members) {name : String}
    {method : String} {params : Json}
    (hparams : (params.get "name").bind asStr = some (m.toolPrefix ++ name)) :
    resolvePrefixed members method params = .ok (m, withParam params "name" name) ↔
      ∀ m' ∈ members, startsWith (m.toolPrefix ++ name) m'.toolPrefix = true →
        startsWith m'.toolPrefix m.toolPrefix = true → m' = m := by
  rw [← StrPrefix.longest_eq_some (fun x hx y hy => h.eq_of_prefix hx hy) hm rfl]
  unfold resolvePrefixed
  rw [hparams]
  show (orFail (longest AggregateMember.toolPrefix _ members) _ >>= _) = _ ↔ _
  cases hfound : longest AggregateMember.toolPrefix (m.toolPrefix ++ name) members with
  | none =>
    constructor
    · rintro ⟨⟩
    · rintro ⟨⟩
  | some found =>
    obtain ⟨m', rest⟩ := found
    show Except.ok (m', withParam params "name" rest) = _ ↔ _
    constructor
    · intro hok
      obtain ⟨rfl, -⟩ := Prod.mk.inj (Except.ok.inj hok)
      have hname := (StrPrefix.longest_mem hfound).2
      rw [(StrPrefix.append_right_inj m'.toolPrefix).mp hname]
    · intro hsome
      obtain ⟨rfl, rfl⟩ := Prod.mk.inj (Option.some.inj hsome)
      rfl

end BitRouter.Mcp
