import BitRouter.Evolution.Operations

/-!
# Registration and revision

The two operations by which the genealogy grows. A revision starts from the
baseline still supported: all of the ancestry of the current experiment, or the
part before the first ancestor that lost its support. Either way what the next
experiment rests on are archived experiments, and its rules start from the
routes these lead to.
-/

namespace BitRouter.Evolution

open ControlState

variable {P : Primitives} {s s' : ControlState} {b : BlockState} {definition : BlockDefinition}

/-! ## The supported baseline -/

theorem exists_ancestor (h : s.genealogy.Sound P) (hb : b ∈ s.experiments) {e : String}
    (he : e ∈ b.baselineAncestry) :
    ∃ a, s.archivedExperiments[e]? = some a
      ∧ s.experiment b.definition.blockId (some e) = some a.block := by
  obtain ⟨i, hi⟩ := List.getElem?_of_mem he
  obtain ⟨l, hl, hblock, -⟩ := h.ancestry b.lineage (has_lineage hb) i e hi
  obtain ⟨a, ha, rfl⟩ := exists_of_archive hl
  exact ⟨a, ha, (experiment_eq_some h).mpr
    ⟨mem_of_archived ha, hblock, experimentId_of_archived h ha⟩⟩

/-- **The baseline of an experiment**: itself when all its ancestry is still
supported, or else its first ancestor that is not, with the ancestry before. -/
inductive Baseline (s : ControlState) (b : BlockState) : BlockState → List String → Prop
  | valid : (∀ e ∈ b.baselineAncestry, ∀ a, s.experiment b.definition.blockId (some e) = some a →
      s.supports a = true) → Baseline s b b b.baselineAncestry
  | lost (before : List String) (e : String) (after : List String) (a : BlockState) :
    b.baselineAncestry = before ++ e :: after →
    s.experiment b.definition.blockId (some e) = some a → s.supports a = false →
    (∀ e' ∈ before, ∀ a, s.experiment b.definition.blockId (some e') = some a →
      s.supports a = true) → Baseline s b a before

theorem baselineFrom_eq (passed rest : List String)
    (hresolve : ∀ e ∈ rest, ∃ a, s.experiment b.definition.blockId (some e) = some a) :
    (s.baselineFrom b passed rest = .ok (b, passed ++ rest)
        ∧ ∀ e ∈ rest, ∀ a, s.experiment b.definition.blockId (some e) = some a →
          s.supports a = true)
      ∨ ∃ before e after a, rest = before ++ e :: after
        ∧ s.baselineFrom b passed rest = .ok (a, passed ++ before)
        ∧ s.experiment b.definition.blockId (some e) = some a ∧ s.supports a = false
        ∧ ∀ e' ∈ before, ∀ a, s.experiment b.definition.blockId (some e') = some a →
          s.supports a = true := by
  induction rest generalizing passed with
  | nil =>
    refine Or.inl ⟨?_, by simp⟩
    rw [List.append_nil]
    rfl
  | cons e rest ih =>
    obtain ⟨a, ha⟩ := hresolve e List.mem_cons_self
    have hstep : s.baselineFrom b passed (e :: rest)
        = if s.supports a then s.baselineFrom b (passed ++ [e]) rest else .ok (a, passed) := by
      rw [baselineFrom, ha]
    rw [hstep]
    cases hsupports : s.supports a with
    | false =>
      refine Or.inr ⟨[], e, rest, a, rfl, ?_, ha, hsupports, by simp⟩
      rw [List.append_nil]
      rfl
    | true =>
      have hhere : ∀ a', s.experiment b.definition.blockId (some e) = some a' →
          s.supports a' = true := by
        intro a' ha'
        rw [Option.some.inj (ha'.symm.trans ha)]
        exact hsupports
      rcases ih (passed ++ [e]) (fun e' he' => hresolve e' (List.mem_cons_of_mem _ he')) with
        ⟨hok, hall⟩ | ⟨before, e', after, a', hrest, hok, ha', hlost, hall⟩
      · refine Or.inl ⟨?_, List.forall_mem_cons.mpr ⟨hhere, hall⟩⟩
        rw [hok, List.append_assoc]
        rfl
      · refine Or.inr ⟨e :: before, e', after, a', by rw [hrest]; rfl, ?_, ha', hlost,
          List.forall_mem_cons.mpr ⟨hhere, hall⟩⟩
        rw [hok, List.append_assoc]
        rfl

/-- **The baseline of an experiment is always found.** -/
theorem exists_baselineSource (h : s.genealogy.Sound P) (hb : b ∈ s.experiments) :
    ∃ baseline passed, s.baselineSource b = .ok (baseline, passed)
      ∧ Baseline s b baseline passed := by
  have hresolve : ∀ e ∈ b.baselineAncestry,
      ∃ a, s.experiment b.definition.blockId (some e) = some a := by
    intro e he
    obtain ⟨a, -, ha⟩ := exists_ancestor h hb he
    exact ⟨a.block, ha⟩
  rcases baselineFrom_eq [] b.baselineAncestry hresolve with
    ⟨hok, hall⟩ | ⟨before, e, after, a, hsplit, hok, ha, hlost, hall⟩
  · exact ⟨b, b.baselineAncestry, hok, .valid hall⟩
  · exact ⟨a, before, hok, .lost before e after a hsplit ha hlost hall⟩

theorem baseline_of_ok (h : s.genealogy.Sound P) (hb : b ∈ s.experiments) {baseline : BlockState}
    {passed : List String} (hok : s.baselineSource b = .ok (baseline, passed)) :
    Baseline s b baseline passed := by
  obtain ⟨baseline', passed', hok', hbaseline⟩ := exists_baselineSource h hb
  obtain ⟨rfl, rfl⟩ := Prod.mk.inj (Except.ok.inj (hok.symm.trans hok'))
  exact hbaseline

namespace Baseline

variable {baseline : BlockState} {passed : List String}

/-- The baseline is an experiment of the same block, whose ancestry is the one
still supported. -/
theorem spec (h : s.genealogy.Sound P) (hb : b ∈ s.experiments)
    (hbaseline : Baseline s b baseline passed) :
    baseline ∈ s.experiments ∧ baseline.definition.blockId = b.definition.blockId
      ∧ baseline.baselineAncestry = passed := by
  cases hbaseline with
  | valid _ => exact ⟨hb, rfl, rfl⟩
  | lost _ e after _ hsplit ha _ _ =>
    obtain ⟨hmem, hblock, hid⟩ := (experiment_eq_some h).mp ha
    refine ⟨hmem, hblock, ?_⟩
    have hi : b.baselineAncestry[passed.length]? = some e := by
      rw [hsplit, List.getElem?_append_right (Nat.le_refl _), Nat.sub_self]
      rfl
    obtain ⟨l, hl, -, htake⟩ := h.ancestry b.lineage (has_lineage hb) _ e hi
    obtain ⟨a', ha', rfl⟩ := exists_of_archive hl
    obtain rfl := eq_of_experimentId h (mem_of_archived ha') hmem
      ((experimentId_of_archived h ha').trans hid.symm)
    have hinitial : b.baselineAncestry.take passed.length = passed := by
      rw [hsplit, List.take_left]
    exact htake.trans hinitial

theorem passed_eq_take (hbaseline : Baseline s b baseline passed) :
    passed = b.baselineAncestry.take passed.length := by
  cases hbaseline with
  | valid _ => rw [List.take_length]
  | lost _ _ _ _ hsplit _ _ _ => rw [hsplit, List.take_left]

/-- **There is one baseline.** -/
theorem unique (hbaseline : Baseline s b baseline passed) {baseline' : BlockState}
    {passed' : List String} (hbaseline' : Baseline s b baseline' passed') :
    baseline = baseline' ∧ passed = passed' := by
  have hsplits : ∀ {before before' after after' : List String} {e e' : String} {a : BlockState},
      b.baselineAncestry = before ++ e :: after → b.baselineAncestry = before' ++ e' :: after' →
      s.experiment b.definition.blockId (some e) = some a → s.supports a = false →
      (∀ e ∈ before', ∀ a, s.experiment b.definition.blockId (some e) = some a →
        s.supports a = true) → before'.length ≤ before.length := by
    intro before before' after after' e e' a hsplit hsplit' ha hlost hall'
    by_contra hlt
    have he : e ∈ before' := by
      have hget : (before' ++ e' :: after')[before.length]? = some e := by
        rw [← hsplit', hsplit, List.getElem?_append_right (Nat.le_refl _), Nat.sub_self]
        rfl
      rw [List.getElem?_append_left (Nat.not_le.mp hlt)] at hget
      exact List.mem_of_getElem? hget
    exact absurd ((hall' e he a ha).symm.trans hlost) (by simp)
  cases hbaseline with
  | valid hall =>
    cases hbaseline' with
    | valid _ => exact ⟨rfl, rfl⟩
    | lost _ e after _ hsplit ha hlost _ =>
      have he : e ∈ b.baselineAncestry := by
        rw [hsplit]
        simp
      exact absurd ((hall e he _ ha).symm.trans hlost) (by simp)
  | lost _ e after _ hsplit ha hlost hall =>
    cases hbaseline' with
    | valid hall' =>
      have he : e ∈ b.baselineAncestry := by
        rw [hsplit]
        simp
      exact absurd ((hall' e he _ ha).symm.trans hlost) (by simp)
    | lost _ e' after' _ hsplit' ha' hlost' hall' =>
      have hlength := Nat.le_antisymm
        (hsplits hsplit' hsplit ha' hlost' hall) (hsplits hsplit hsplit' ha hlost hall')
      obtain ⟨rfl, hrest⟩ := List.append_inj (hsplit.symm.trans hsplit') hlength
      obtain ⟨rfl, -⟩ := List.cons.inj hrest
      exact ⟨Option.some.inj (ha.symm.trans ha'), rfl⟩

/-- **The rules of the block are found in its baseline.** -/
theorem exists_rule (h : s.genealogy.Sound P) (hb : b ∈ s.experiments)
    (hbaseline : Baseline s b baseline passed) {rule : BlockRule}
    (hrule : rule.matcher ∈ b.definition.matchers) :
    ∃ old, baseline.definition.ruleOf rule.matcher = some old := by
  obtain ⟨hmem, hblock, -⟩ := hbaseline.spec h hb
  have hmatchers : baseline.definition.matchers = b.definition.matchers :=
    h.matchers_eq (has_lineage hmem) (has_lineage hb) hblock
  rw [← hmatchers] at hrule
  obtain ⟨old, hold, heq⟩ := List.mem_map.mp (List.mem_toFinset.mp hrule)
  cases hfind : baseline.definition.ruleOf rule.matcher with
  | some old => exact ⟨old, rfl⟩
  | none => exact absurd (decide_eq_true heq) (List.find?_eq_none.mp hfind old hold)

end Baseline

theorem BlockDefinition.ruleOf_eq_some {matcher : String × Option String} {rule : BlockRule}
    (h : definition.ruleOf matcher = some rule) :
    rule ∈ definition.rules ∧ rule.matcher = matcher := by
  have hfind : definition.rules.find? (fun r => r.matcher = matcher) = some rule := h
  have hmatcher := List.find?_some hfind
  exact ⟨List.mem_of_find?_eq_some hfind, of_decide_eq_true hmatcher⟩

/-! ## Registration -/

/-- **What a registration leaves**: a block more. -/
structure Registered (P : Primitives) (s s' : ControlState) (definition : BlockDefinition)
    (configDigest : String) : Prop where
  valid : definition.validate = .ok ()
  new : s.blocks[definition.blockId]? = none
  cold : ∀ rule ∈ definition.rules, rule.baselineRoute = rule.selector
  disjoint : ∀ other ∈ s.blocks.toList, other.2.definition.source = definition.source →
    ∀ a ∈ definition.rules, ∀ b ∈ other.2.definition.rules, overlap a b = false
  available : s.dependenciesAvailable definition
  blocks : s'.blocks = s.blocks.insert definition.blockId
    (s.registeredBlock P definition configDigest)
  archived : s'.archivedExperiments = s.archivedExperiments
  steady : Steady s s'

theorem register_eq_ok {configDigest : String}
    (hok : s.register P definition configDigest = .ok s') :
    Registered P s s' definition configDigest := by
  obtain ⟨_, hvalid, hok⟩ := bind_eq_ok.mp hok
  obtain ⟨_, hnew, hok⟩ := bind_eq_ok.mp hok
  obtain ⟨_, hcold, hok⟩ := bind_eq_ok.mp hok
  obtain ⟨_, hdisjoint, hok⟩ := bind_eq_ok.mp hok
  obtain ⟨_, havailable, hok⟩ := bind_eq_ok.mp hok
  obtain ⟨_, -, hok⟩ := bind_eq_ok.mp hok
  obtain rfl := pure_eq_ok.mp hok
  exact ⟨hvalid, ensure_eq_ok.mp hnew, ensure_eq_ok.mp hcold, ensure_eq_ok.mp hdisjoint,
    ensure_eq_ok.mp havailable, rfl, rfl, ⟨rfl, rfl, rfl, rfl, rfl⟩⟩

namespace Registered

variable {configDigest : String}

section

variable (h : Registered P s s' definition configDigest)

include h

theorem genealogy_eq :
    s'.genealogy = s.genealogy.begun (s.registeredBlock P definition configDigest).lineage := by
  unfold genealogy Genealogy.begun
  congr 1
  · funext k
    rw [h.blocks, StrMap.getElem?_insert]
    by_cases hk : definition.blockId = k
    · rw [if_pos hk, Option.map_some]
      exact (if_pos hk.symm).symm
    · rw [if_neg hk]
      exact (if_neg (fun heq => hk heq.symm)).symm
  · funext k
    rw [h.archived]

theorem sound (hsound : s.genealogy.Sound P) :
    s'.genealogy.Sound P := by
  rw [h.genealogy_eq]
  refine hsound.begun ?_ h.valid rfl rfl rfl h.cold
  show s.blocks[definition.blockId]?.map _ = none
  rw [h.new]
  rfl

theorem mem_iff :
    b ∈ s'.experiments ↔ b ∈ s.experiments ∨ b = s.registeredBlock P definition configDigest := by
  rw [mem_experiments, mem_experiments, h.archived]
  constructor
  · rintro (⟨k, hk⟩ | harchived)
    · rw [h.blocks, StrMap.getElem?_insert] at hk
      split at hk
      · exact Or.inr (Option.some.inj hk).symm
      · exact Or.inl (Or.inl ⟨k, hk⟩)
    · exact Or.inl (Or.inr harchived)
  · rintro ((⟨k, hk⟩ | harchived) | rfl)
    · refine Or.inl ⟨k, ?_⟩
      rw [h.blocks, StrMap.getElem?_insert, if_neg]
      · exact hk
      · rintro rfl
        exact absurd (hk.symm.trans h.new) (by simp)
    · exact Or.inr harchived
    · refine Or.inl ⟨definition.blockId, ?_⟩
      rw [h.blocks, StrMap.getElem?_insert, if_pos rfl]

end

end Registered

/-! ## Revision -/

/-- **What a revision leaves**: the current experiment archived, and the next one
in its place. -/
structure Revised (P : Primitives) (s s' : ControlState) (previous : BlockState)
    (definition : BlockDefinition) (routingDigest : String) (reset : Bool)
    (baseline : BlockState) (passed : List String) (next : BlockState) : Prop where
  valid : definition.validate = .ok ()
  current : s.blocks[definition.blockId]? = some previous
  source : definition.source = previous.definition.source
  matchers : definition.matchers = previous.definition.matchers
  supported : s.baselineSource previous = .ok (baseline, passed)
  inherited : ∀ rule ∈ definition.rules, ∃ old,
    baseline.definition.ruleOf rule.matcher = some old
      ∧ rule.baselineRoute = expectedBaseline reset (s.inheritsAdoption previous reset) rule old
  available : s.dependenciesAvailable definition
  next_eq : next = s.revisedBlock P previous definition routingDigest
    (revisedAncestry previous passed reset (s.inheritsAdoption previous reset)) reset
  new : s.archivedExperiments[next.experimentId]? = none
  blocks : s'.blocks = s.blocks.insert definition.blockId next
  archived : s'.archivedExperiments
    = s.archivedExperiments.insert previous.experimentId ⟨previous, next.experimentId⟩
  steady : Steady s s'

theorem revise_eq_ok {routingDigest predecessor : String} {reset : Bool}
    (hok : s.revise P definition routingDigest predecessor reset = .ok s') :
    ∃ previous baseline passed next,
      Revised P s s' previous definition routingDigest reset baseline passed next := by
  obtain ⟨_, hvalid, hok⟩ := bind_eq_ok.mp hok
  obtain ⟨previous, hprevious, hok⟩ := bind_eq_ok.mp hok
  obtain ⟨_, -, hok⟩ := bind_eq_ok.mp hok
  obtain ⟨_, hsource, hok⟩ := bind_eq_ok.mp hok
  obtain ⟨_, hmatchers, hok⟩ := bind_eq_ok.mp hok
  obtain ⟨⟨baseline, passed⟩, hsupported, hok⟩ := bind_eq_ok.mp hok
  obtain ⟨_, hinherited, hok⟩ := bind_eq_ok.mp hok
  obtain ⟨_, havailable, hok⟩ := bind_eq_ok.mp hok
  obtain ⟨_, hnew, hok⟩ := bind_eq_ok.mp hok
  obtain ⟨generation, -, hok⟩ := bind_eq_ok.mp hok
  obtain rfl := pure_eq_ok.mp hok
  refine ⟨previous, baseline, passed, _, hvalid, orFail_eq_ok.mp hprevious,
    ensure_eq_ok.mp hsource, ensure_eq_ok.mp hmatchers, hsupported, fun rule hrule => ?_,
    ensure_eq_ok.mp havailable, rfl, ensure_eq_ok.mp hnew, rfl, rfl, ⟨rfl, rfl, rfl, rfl, rfl⟩⟩
  obtain ⟨old, hold, hroute⟩ := bind_eq_ok.mp (forM_eq_ok.mp hinherited rule hrule)
  exact ⟨old, orFail_eq_ok.mp hold, ensure_eq_ok.mp hroute⟩

namespace Revised

variable {previous next baseline : BlockState} {routingDigest : String} {reset : Bool}
  {passed : List String}

theorem genealogy_eq
    (h : Revised P s s' previous definition routingDigest reset baseline passed next) :
    s'.genealogy = s.genealogy.succeeded previous.lineage next.lineage := by
  have hid : next.lineage.definition.blockId = definition.blockId := by
    rw [h.next_eq]
    rfl
  unfold genealogy Genealogy.succeeded
  congr 1
  · funext k
    rw [h.blocks, StrMap.getElem?_insert, hid]
    by_cases hk : definition.blockId = k
    · rw [if_pos hk, if_pos hk.symm]
      rfl
    · rw [if_neg hk, if_neg (fun heq => hk heq.symm)]
  · funext k
    show _ = if k = previous.experimentId then some previous.lineage else _
    rw [h.archived, StrMap.getElem?_insert]
    by_cases hk : previous.experimentId = k
    · rw [if_pos hk, if_pos hk.symm]
      rfl
    · rw [if_neg hk, if_neg (fun heq => hk heq.symm)]

section

variable (hsound : s.genealogy.Sound P)
  (h : Revised P s s' previous definition routingDigest reset baseline passed next)

include hsound h

theorem baseline_of_inherits (hinherits : s.inheritsAdoption previous reset = true) :
    baseline = previous ∧ passed = previous.baselineAncestry := by
  have hvalid : s.baselineValid previous = true := by
    unfold inheritsAdoption dependenciesMatch at hinherits
    simp only [Bool.and_eq_true] at hinherits
    exact hinherits.2.2
  have hmem : previous ∈ s.experiments := mem_of_blocks h.current
  cases baseline_of_ok hsound hmem h.supported with
  | valid _ => exact ⟨rfl, rfl⟩
  | lost _ e after _ hsplit ha hlost _ =>
    have he := List.all_eq_true.mp hvalid e (by rw [hsplit]; simp)
    rw [ha, Option.any_some, hlost] at he
    exact absurd he (by simp)

theorem ancestry_eq :
    (reset = true ∧ next.baselineAncestry = [])
      ∨ (s.inheritsAdoption previous reset = true ∧ baseline = previous ∧ reset = false
        ∧ next.baselineAncestry = previous.baselineAncestry ++ [previous.experimentId])
      ∨ (s.inheritsAdoption previous reset = false ∧ reset = false
        ∧ next.baselineAncestry = passed) := by
  have hancestry : next.baselineAncestry
      = revisedAncestry previous passed reset (s.inheritsAdoption previous reset) := by
    rw [h.next_eq]
    rfl
  rw [hancestry]
  cases reset with
  | true => exact Or.inl ⟨rfl, rfl⟩
  | false =>
    cases hinherits : s.inheritsAdoption previous false with
    | false => exact Or.inr (Or.inr ⟨rfl, rfl, rfl⟩)
    | true =>
      obtain ⟨hbaseline, hpassed⟩ := h.baseline_of_inherits hsound hinherits
      refine Or.inr (Or.inl ⟨rfl, hbaseline, rfl, ?_⟩)
      rw [hpassed]
      rfl

/-- **A revision keeps the genealogy sound.** -/
theorem sound :
    s'.genealogy.Sound P := by
  have hmem : previous ∈ s.experiments := mem_of_blocks h.current
  have hprevious : s.genealogy.current next.lineage.definition.blockId = some previous.lineage := by
    rw [h.next_eq]
    exact current_of_blocks h.current
  obtain ⟨hbaseline, hblock, hpassed⟩ := (baseline_of_ok hsound hmem h.supported).spec hsound hmem
  have htake := (baseline_of_ok hsound hmem h.supported).passed_eq_take
  rw [h.genealogy_eq]
  -- an ancestor of `previous` is one of the next experiment, at the same place
  have hkept : ∀ ancestry : List String, ancestry = previous.baselineAncestry.take ancestry.length →
      ∀ i e, ancestry[i]? = some e → ∃ a, s.genealogy.archive e = some a
        ∧ a.definition.blockId = previous.definition.blockId ∧ a.ancestry = ancestry.take i := by
    intro ancestry hinitial i e hi
    have hlt : i < ancestry.length := (List.getElem?_eq_some_iff.mp hi).1
    have hi' : previous.lineage.ancestry[i]? = some e := by
      rw [hinitial, List.getElem?_take_of_lt hlt] at hi
      exact hi
    obtain ⟨a, ha, hsame, hancestry⟩ := hsound.ancestry _ (has_lineage hmem) i e hi'
    refine ⟨a, ha, hsame, hancestry.trans ?_⟩
    rw [hinitial, List.take_take, Nat.min_eq_left hlt.le]
    rfl
  have hnextBlock : next.lineage.definition.blockId = previous.definition.blockId :=
    (hsound.currentKey _ _ hprevious).symm
  refine hsound.succeeded hprevious ?_ ?_ ?_ ?_ ?_ ?_ ?_ ?_
  · rw [h.next_eq]
    exact h.valid
  · rw [h.next_eq]
    exact h.source
  · rw [h.next_eq]
    exact h.matchers
  · rw [h.next_eq]
    rfl
  · rw [h.next_eq]
    rfl
  · show s.archivedExperiments[next.experimentId]?.map _ = none
    rw [h.new]
    rfl
  · intro i e hi
    have hancestor : ∀ a, s.genealogy.archive e = some a →
        (s.genealogy.succeeded previous.lineage next.lineage).archive e = some a :=
      fun a ha => hsound.archive_mono hprevious ha
    rcases h.ancestry_eq hsound with ⟨-, hnil⟩ | ⟨-, -, -, hconcat⟩ | ⟨-, -, hpart⟩
    · exact absurd hi (by show ¬ next.baselineAncestry[i]? = _; simp [hnil])
    · have hi' : (previous.baselineAncestry ++ [previous.experimentId])[i]? = some e :=
        hconcat ▸ hi
      have hlineage : next.lineage.ancestry
          = previous.baselineAncestry ++ [previous.experimentId] := hconcat
      by_cases hlt : i < previous.baselineAncestry.length
      · rw [List.getElem?_append_left hlt] at hi'
        obtain ⟨a, ha, hsame, hancestry⟩ := hkept previous.baselineAncestry
          (by rw [List.take_length]) i e hi'
        refine ⟨a, hancestor a ha, hsame.trans hnextBlock.symm, ?_⟩
        rw [hlineage, List.take_append_of_le_length hlt.le]
        exact hancestry
      · have hlast : i = previous.baselineAncestry.length := by
          have hbound := (List.getElem?_eq_some_iff.mp hi').1
          rw [List.length_append, List.length_singleton] at hbound
          omega
        subst hlast
        rw [List.getElem?_append_right (Nat.le_refl _), Nat.sub_self] at hi'
        obtain rfl := Option.some.inj hi'
        refine ⟨previous.lineage, if_pos rfl, hnextBlock.symm, ?_⟩
        rw [hlineage, List.take_left]
        rfl
    · have hi' : passed[i]? = some e := hpart ▸ hi
      have hlineage : next.lineage.ancestry = passed := hpart
      obtain ⟨a, ha, hsame, hancestry⟩ := hkept passed htake i e hi'
      exact ⟨a, hancestor a ha, hsame.trans hnextBlock.symm, hancestry.trans (by rw [hlineage])⟩
  · intro rule hrule
    have hrule : rule ∈ definition.rules := by
      rw [h.next_eq] at hrule
      exact hrule
    obtain ⟨old, hold, hroute⟩ := h.inherited rule hrule
    obtain ⟨hmemOld, hmatcher⟩ := BlockDefinition.ruleOf_eq_some hold
    unfold expectedBaseline at hroute
    rcases h.ancestry_eq hsound with ⟨hreset, hnil⟩ | ⟨hinherits, rfl, hreset, hconcat⟩
      | ⟨hinherits, hreset, hpart⟩
    · rw [if_pos hreset] at hroute
      have hlineage : next.lineage.ancestry = [] := hnil
      rw [hlineage, hroute]
      rfl
    · -- the adopted route of the current experiment
      rw [if_neg (by simp [hreset]), if_pos hinherits] at hroute
      have hlineage : next.lineage.ancestry
          = baseline.baselineAncestry ++ [baseline.experimentId] := hconcat
      have hself : (s.genealogy.succeeded baseline.lineage next.lineage).archive
          baseline.experimentId = some baseline.lineage := if_pos rfl
      have hfound : baseline.lineage.definition.ruleOf rule.matcher = some old := hold
      unfold Genealogy.inherited
      rw [hlineage, List.getLast?_concat]
      dsimp only
      rw [hself, Option.bind_some, hfound, hroute]
      rfl
    · -- the route the supported baseline started from
      rw [if_neg (by simp [hreset]), if_neg (by simp [hinherits])] at hroute
      have hlineage : next.lineage.ancestry = baseline.lineage.ancestry := hpart.trans hpassed.symm
      rw [hlineage, hroute, Genealogy.inherited_congr hmatcher.symm]
      exact hsound.inherited_mono hprevious
        (hsound.inherits _ (has_lineage hbaseline) old hmemOld)

theorem mem_iff :
    b ∈ s'.experiments ↔ b ∈ s.experiments ∨ b = next := by
  rw [mem_experiments, mem_experiments]
  constructor
  · rintro (⟨k, hk⟩ | ⟨k, a, hk, rfl⟩)
    · rw [h.blocks, StrMap.getElem?_insert] at hk
      split at hk
      · exact Or.inr (Option.some.inj hk).symm
      · exact Or.inl (Or.inl ⟨k, hk⟩)
    · rw [h.archived, StrMap.getElem?_insert] at hk
      split at hk
      · obtain rfl := Option.some.inj hk
        exact Or.inl (Or.inl ⟨_, h.current⟩)
      · exact Or.inl (Or.inr ⟨k, a, hk, rfl⟩)
  · rintro ((⟨k, hk⟩ | ⟨k, a, hk, rfl⟩) | rfl)
    · by_cases heq : definition.blockId = k
      · subst heq
        obtain rfl := Option.some.inj (hk.symm.trans h.current)
        refine Or.inr ⟨b.experimentId, ⟨b, next.experimentId⟩, ?_, rfl⟩
        rw [h.archived, StrMap.getElem?_insert, if_pos rfl]
      · refine Or.inl ⟨k, ?_⟩
        rw [h.blocks, StrMap.getElem?_insert, if_neg heq]
        exact hk
    · refine Or.inr ⟨k, a, ?_, rfl⟩
      rw [h.archived, StrMap.getElem?_insert, if_neg]
      · exact hk
      · rintro rfl
        exact absurd (hk.symm.trans (archived_eq_none hsound h.current)) (by simp)
    · refine Or.inl ⟨definition.blockId, ?_⟩
      rw [h.blocks, StrMap.getElem?_insert, if_pos rfl]

end

end Revised

end BitRouter.Evolution
