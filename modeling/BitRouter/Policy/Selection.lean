import BitRouter.Policy.Recompiled

/-!
# Whether the selected tier is the best one

The positive rule takes the greatest tier of `candidateCmp`, which looks at the cost of
two tiers that ran the same tasks, and at their counts and rates otherwise. This is no
order: three tiers may each be better than the next, and then the order of their names
decides. The selection stands, under any names, exactly where one tier is better than all
others.
-/

namespace BitRouter.Policy

/-! ## The comparison -/

variable {x y w : String × TierEvalEvidence}

/-- The comparison of two tiers by what was measured, their names left out. -/
def measuredCmp (left right : TierEvalEvidence) : Ordering := candidateCmp ("", left) ("", right)

theorem candidateCmp_eq (x y : String × TierEvalEvidence) :
    candidateCmp x y = (measuredCmp x.2 y.2).then (cmpBytes y.1 x.1) := by
  rw [measuredCmp, candidateCmp, candidateCmp,
    show cmpBytes "" "" = .eq from Std.ReflCmp.compare_self, Ordering.then_eq, Ordering.then_assoc,
    Ordering.then_assoc]

theorem swap_candidateCmp (x y : String × TierEvalEvidence) :
    (candidateCmp x y).swap = candidateCmp y x := by
  simp only [candidateCmp, Ordering.swap_then, ← Std.OrientedCmp.eq_swap]
  congr 1
  by_cases htasks : x.2.independentTasks = y.2.independentTasks
  · rw [if_pos htasks, if_pos htasks.symm]
    cases x.2.costMicroUsd.mean with
    | none => cases y.2.costMicroUsd.mean <;> rfl
    | some a =>
      cases y.2.costMicroUsd.mean with
      | none => rfl
      | some b => exact (Std.OrientedOrd.eq_swap (a := a) (b := b)).symm
  · rw [if_neg htasks, if_neg (Ne.symm htasks)]
    rfl

/-- Only a tier itself is as good as it is. -/
theorem candidateCmp_of_ne (hname : x.1 ≠ y.1) (h : candidateCmp x y ≠ .lt) :
    candidateCmp x y = .gt := by
  cases hcmp : candidateCmp x y with
  | lt => exact absurd hcmp h
  | gt => rfl
  | eq =>
    rw [candidateCmp_eq, Ordering.then_eq_eq] at hcmp
    exact absurd (Std.LawfulEqCmp.eq_of_compare hcmp.2).symm hname

/-- **A tier that is better than all others is selected**, in whatever order they come. -/
theorem maxBy_of_unbeaten {xs : List (String × TierEvalEvidence)} (hw : w ∈ xs)
    (hnames : ∀ y ∈ xs, w.1 = y.1 → w = y) (hbest : ∀ y ∈ xs, candidateCmp w y ≠ .lt) :
    maxBy candidateCmp xs = some w := by
  have hfold : ∀ (ys : List (String × TierEvalEvidence)) (best : String × TierEvalEvidence),
      (∀ y ∈ best :: ys, y ∈ xs) → w ∈ best :: ys →
      ys.foldl (fun best y => if candidateCmp best y = .gt then best else y) best = w := by
    intro ys
    induction ys with
    | nil => exact fun best _ hw => (List.mem_singleton.mp hw).symm
    | cons y ys ih =>
      intro best hsub hw
      rw [List.foldl_cons]
      have hbestIn := hsub best List.mem_cons_self
      have hy := hsub y (List.mem_cons_of_mem _ List.mem_cons_self)
      have hrest (z) (hz : z ∈ xs) : ∀ x ∈ z :: ys, x ∈ xs := by
        rintro x (_ | ⟨_, hx⟩)
        · exact hz
        · exact hsub x (List.mem_cons_of_mem _ (List.mem_cons_of_mem _ hx))
      by_cases hgt : candidateCmp best y = .gt
      · -- `y` is worse than what is selected so far, so it is not `w`
        rw [if_pos hgt]
        refine ih best (hrest best hbestIn) ?_
        rcases List.mem_cons.mp hw with hw | hw
        · exact hw ▸ List.mem_cons_self
        · rcases List.mem_cons.mp hw with rfl | hw
          · have hlt := swap_candidateCmp best w
            rw [hgt] at hlt
            exact absurd hlt.symm (hbest best hbestIn)
          · exact List.mem_cons_of_mem _ hw
      · rw [if_neg hgt]
        refine ih y (hrest y hy) ?_
        rcases List.mem_cons.mp hw with rfl | hw
        · by_cases hname : w.1 = y.1
          · exact hnames y hy hname ▸ List.mem_cons_self
          · exact absurd (candidateCmp_of_ne hname (hbest y hy)) hgt
        · exact hw
  cases xs with
  | nil => exact absurd hw List.not_mem_nil
  | cons x xs => exact congrArg some (hfold xs x (fun _ h => h) hw)

/-! ## Renaming -/

/-- The entries of a map under other names. -/
def renameKeys {α : Type} (f : String → String) (m : StrMap α) : StrMap α :=
  StrMap.ofPairs (m.toList.map (Prod.map f id))

section Renamed

variable {f : String → String} (hf : f.Injective)
include hf

theorem getElem?_renameKeys {α : Type} (m : StrMap α) (k : String) :
    (renameKeys f m)[f k]? = m[k]? := by
  have hkeys : (m.toList.map (Prod.map f id)).map (·.1) = m.keys.map f := by
    rw [← Std.ExtTreeMap.map_fst_toList_eq_keys, List.map_map, List.map_map]
    rfl
  cases hk : m[k]? with
  | some v =>
    refine StrMap.getElem?_ofPairs ?_
      (List.mem_map.mpr ⟨(k, v), StrMap.mem_toList.mpr hk, rfl⟩)
    rw [hkeys]
    exact Std.ExtTreeMap.nodup_keys.map hf
  | none =>
    refine StrMap.getElem?_ofPairs_none fun hmem => ?_
    rw [hkeys, List.mem_map_of_injective hf, Std.ExtTreeMap.mem_keys, StrMap.mem_iff, hk] at hmem
    exact Bool.false_ne_true hmem

theorem mem_toList_renameKeys {α : Type} {m : StrMap α} {entry : String × α} :
    entry ∈ (renameKeys f m).toList ↔ ∃ old ∈ m.toList, (f old.1, old.2) = entry := by
  constructor
  · intro hentry
    have hvalue := StrMap.mem_toList.mp hentry
    have hkey : entry.1 ∈ renameKeys f m := StrMap.mem_iff.mpr (hvalue ▸ rfl)
    obtain ⟨_, hpair, hname⟩ := List.mem_map.mp (StrMap.mem_ofPairs.mp hkey)
    obtain ⟨old, -, rfl⟩ := List.mem_map.mp hpair
    have hname : f old.1 = entry.1 := hname
    rw [← hname, getElem?_renameKeys hf] at hvalue
    exact ⟨(old.1, entry.2), StrMap.mem_toList.mpr hvalue, Prod.ext hname rfl⟩
  · rintro ⟨old, hold, rfl⟩
    exact StrMap.mem_toList.mpr ((getElem?_renameKeys hf m old.1).trans (StrMap.mem_toList.mp hold))

end Renamed

/-- The policy with its tiers under other names. -/
def PolicyDefinition.renameTiers (f : String → String) (policy : PolicyDefinition) :
    PolicyDefinition :=
  { policy with
    tiers := renameKeys f policy.tiers
    defaultTier := policy.defaultTier.map f }

/-- The evidence with its tiers under other names. -/
def RouteEvalEvidence.renameTiers (f : String → String) (route : RouteEvalEvidence) :
    RouteEvalEvidence :=
  { route with
    tiers := renameKeys f route.tiers
    baselineTier := route.baselineTier.map f }

/-- Tiers that were measured alike keep their order. -/
def KeepsTies (f : String → String) (route : RouteEvalEvidence) : Prop :=
  ∀ x ∈ route.tiers.toList, ∀ y ∈ route.tiers.toList, measuredCmp x.2 y.2 = .eq →
    cmpBytes (f x.1) (f y.1) = cmpBytes x.1 y.1

variable {policy : PolicyDefinition} {route : RouteEvalEvidence} {key : String}
  {prior : Option String} {quality : PromotionQualityCriteria} {f : String → String}

/-- The tiers the positive rule chooses among. -/
def RouteEvalEvidence.eligible (policy : PolicyDefinition) (key : String)
    (quality : PromotionQualityCriteria) (route : RouteEvalEvidence) :
    List (String × TierEvalEvidence) :=
  route.tiers.toList.filter (route.admissible policy key quality)

theorem eligible_names (hx : x ∈ route.eligible policy key quality)
    (hy : y ∈ route.eligible policy key quality) (h : x.1 = y.1) : x = y := by
  have hx := StrMap.mem_toList.mp (List.mem_filter.mp hx).1
  have hy := StrMap.mem_toList.mp (List.mem_filter.mp hy).1
  rw [h, hy] at hx
  exact Prod.ext h (Option.some.inj hx).symm

theorem baseline_renameTiers (f : String → String) :
    (route.renameTiers f).baseline (policy.renameTiers f) = (route.baseline policy).map f := by
  show (route.baselineTier.map f).or (policy.defaultTier.map f) = _
  rw [RouteEvalEvidence.baseline]
  cases route.baselineTier <;> rfl

theorem demotion_renameTiers (hf : f.Injective) :
    (route.renameTiers f).demotion (policy.renameTiers f) (prior.map f)
      = (route.demotion policy prior).map f := by
  have hregressed (t : String) : (route.renameTiers f).regressed (f t) = route.regressed t := by
    show ((renameKeys f route.tiers)[f t]?).any _ = _
    rw [getElem?_renameKeys hf]
    rfl
  unfold RouteEvalEvidence.demotion
  rw [baseline_renameTiers]
  cases prior with
  | none => rfl
  | some t =>
    cases route.baseline policy with
    | none => rfl
    | some b =>
      simp only [Option.map_some, hregressed, ne_eq, hf.eq_iff]
      split <;> rfl

theorem admissible_renameTiers (hf : f.Injective) (x : String × TierEvalEvidence) :
    (route.renameTiers f).admissible (policy.renameTiers f) key quality (f x.1, x.2)
      = route.admissible policy key quality x := by
  have hbase : ((route.renameTiers f).baseline (policy.renameTiers f)).bind
      ((route.renameTiers f).tiers[·]?) = (route.baseline policy).bind (route.tiers[·]?) := by
    rw [baseline_renameTiers, Option.bind_map]
    exact congrArg _ (funext fun t => getElem?_renameKeys hf route.tiers t)
  have hmem : f x.1 ∈ (policy.renameTiers f).tiers ↔ x.1 ∈ policy.tiers := by
    rw [StrMap.mem_iff, StrMap.mem_iff]
    exact iff_of_eq (congrArg (Option.isSome · = true) (getElem?_renameKeys hf policy.tiers x.1))
  have hne : some (f x.1) ≠ (route.renameTiers f).baseline (policy.renameTiers f)
      ↔ some x.1 ≠ route.baseline policy := by
    rw [baseline_renameTiers, ← Option.map_some, (Option.map_injective hf).ne_iff]
  simp only [RouteEvalEvidence.admissible, hbase, hmem, hne]
  rfl

theorem mem_eligible_renameTiers (hf : f.Injective) :
    y ∈ (route.renameTiers f).eligible (policy.renameTiers f) key quality
      ↔ ∃ x ∈ route.eligible policy key quality, (f x.1, x.2) = y := by
  rw [RouteEvalEvidence.eligible, List.mem_filter]
  constructor
  · rintro ⟨hy, hadmissible⟩
    obtain ⟨x, hx, rfl⟩ := (mem_toList_renameKeys hf).mp hy
    exact ⟨x, List.mem_filter.mpr ⟨hx, (admissible_renameTiers hf x).symm.trans hadmissible⟩, rfl⟩
  · rintro ⟨x, hx, rfl⟩
    obtain ⟨hx, hadmissible⟩ := List.mem_filter.mp hx
    exact ⟨(mem_toList_renameKeys hf).mpr ⟨x, hx, rfl⟩,
      (admissible_renameTiers hf x).trans hadmissible⟩

theorem candidateCmp_renamed (hties : KeepsTies f route) (hx : x ∈ route.tiers.toList)
    (hy : y ∈ route.tiers.toList) :
    candidateCmp (f x.1, x.2) (f y.1, y.2) = candidateCmp x y := by
  rw [candidateCmp_eq, candidateCmp_eq]
  cases hmeasured : measuredCmp x.2 y.2 with
  | lt => rfl
  | gt => rfl
  | eq =>
    have hswap := swap_candidateCmp ("", x.2) ("", y.2)
    exact hties y hy x hx (hswap.symm.trans (congrArg Ordering.swap hmeasured))

/-! ## The selection -/

theorem recommendation_promote {tier : String} :
    evalRecommendation policy key prior route quality = some (tier, .promote)
      ↔ route.comparable = true ∧ route.demotion policy prior = none
        ∧ positiveRouteIsAllowed policy key = true
        ∧ (maxBy candidateCmp (route.eligible policy key quality)).map Prod.fst = some tier := by
  unfold evalRecommendation
  cases route.comparable <;> cases route.demotion policy prior
    <;> cases positiveRouteIsAllowed policy key
    <;> simp [RouteEvalEvidence.best, RouteEvalEvidence.eligible]

/-- **A selection that stands**: no tier that was eligible is better, and under other
names the same tier is selected. -/
structure Stands (policy : PolicyDefinition) (key : String) (prior : Option String)
    (route : RouteEvalEvidence) (quality : PromotionQualityCriteria) (tier : String) : Prop where
  best : ∃ e, (tier, e) ∈ route.eligible policy key quality
    ∧ ∀ y ∈ route.eligible policy key quality, candidateCmp (tier, e) y ≠ .lt
  renamed : ∀ f : String → String, f.Injective → KeepsTies f route →
    evalRecommendation (policy.renameTiers f) key (prior.map f) (route.renameTiers f) quality
      = some (f tier, .promote)

/-- **A selection stands exactly where one tier is better than all others.** -/
theorem selection_stands_iff (policy : PolicyDefinition) (key : String) (prior : Option String)
    (route : RouteEvalEvidence) (quality : PromotionQualityCriteria) (tier : String)
    (h : evalRecommendation policy key prior route quality = some (tier, .promote)) :
    Stands policy key prior route quality tier
      ↔ ∃ w ∈ route.eligible policy key quality,
          ∀ y ∈ route.eligible policy key quality, candidateCmp w y ≠ .lt := by
  constructor
  · rintro ⟨⟨e, he, hbest⟩, -⟩
    exact ⟨(tier, e), he, hbest⟩
  · rintro ⟨w, hw, hbest⟩
    obtain ⟨hcomparable, hdemotion, hallowed, hmax⟩ := recommendation_promote.mp h
    rw [maxBy_of_unbeaten hw (fun y hy => eligible_names hw hy) hbest] at hmax
    obtain rfl : w.1 = tier := Option.some.inj hmax
    refine ⟨⟨w.2, hw, hbest⟩, fun f hf hties => ?_⟩
    have hw' := (mem_eligible_renameTiers hf).mpr ⟨w, hw, rfl⟩
    refine recommendation_promote.mpr ⟨hcomparable, ?_, hallowed, ?_⟩
    · rw [demotion_renameTiers hf, hdemotion]
      rfl
    · rw [maxBy_of_unbeaten hw' (fun y hy => eligible_names hw' hy) fun y hy => ?_]
      · rfl
      obtain ⟨x, hx, rfl⟩ := (mem_eligible_renameTiers hf).mp hy
      rw [candidateCmp_renamed hties (List.mem_filter.mp hw).1 (List.mem_filter.mp hx).1]
      exact hbest x hx

/-! ## Three tiers in a circle -/

/-- Three passing tasks at a cost. -/
def circleTier (tasks : Finset String) (fail cost : ℤ) : TierEvalEvidence where
  eligibleEpisodes := 3
  independentTasks := tasks
  totalWeightPpm := 100
  passWeightPpm := 100 - fail
  failWeightPpm := fail
  costMicroUsd := ⟨cost, 1⟩

/-- `a` is cheaper than `b` on the same tasks, `b` passes more often than `c`, and `c` more
often than `a`. -/
def circleRoute : RouteEvalEvidence where
  baselineTier := none
  tiers := StrMap.ofPairs [("a", circleTier {"1"} 4 10), ("b", circleTier {"1"} 0 20),
    ("c", circleTier {"2"} 2 10)]

def circlePolicy : PolicyDefinition :=
  { twoTierPolicy with
    tiers := StrMap.ofPairs [("a", ⟨"vendor:a", none, none⟩), ("b", ⟨"vendor:b", none, none⟩),
      ("c", ⟨"vendor:c", none, none⟩)]
    defaultTier := none }

theorem circle_selects : evalRecommendation circlePolicy implementKey none circleRoute .manualReview
    = some ("c", .promote) := by
  decide +kernel

theorem selection_stands_iff_circle :
    Stands circlePolicy implementKey none circleRoute .manualReview "c"
      ↔ ∃ w ∈ circleRoute.eligible circlePolicy implementKey .manualReview,
          ∀ y ∈ circleRoute.eligible circlePolicy implementKey .manualReview,
            candidateCmp w y ≠ .lt :=
  selection_stands_iff circlePolicy implementKey none circleRoute .manualReview "c" circle_selects

/-- **The selected tier may be worse than one it was chosen over.** -/
theorem selection_beaten : ¬ ∀ (policy : PolicyDefinition) (key : String) (prior : Option String)
    (route : RouteEvalEvidence) (quality : PromotionQualityCriteria) (tier : String),
    evalRecommendation policy key prior route quality = some (tier, .promote) →
    Stands policy key prior route quality tier := by
  intro h
  obtain ⟨⟨e, he, hbest⟩, -⟩ := h _ _ _ _ _ _ circle_selects
  have hb : ("b", circleTier {"1"} 0 20)
      ∈ circleRoute.eligible circlePolicy implementKey .manualReview := by decide +kernel
  have hc : ("c", circleTier {"2"} 2 10)
      ∈ circleRoute.eligible circlePolicy implementKey .manualReview := by decide +kernel
  rw [eligible_names he hc rfl] at hbest
  exact hbest _ hb (by decide)

end BitRouter.Policy
