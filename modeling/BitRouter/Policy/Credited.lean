import BitRouter.Policy.Evidence
import Mathlib.Data.Finset.Lattice.Lemmas
import Mathlib.Data.List.Perm.Basic

/-!
# What is credited

The attribution of a snapshot is one loop over its records. Taken apart, it lists
the attributions in the order of their records (`attributionsOf`), keeps the
first of each key (`credited`), and adds these to their routes. The evidence of a
tier is then the tally of what is credited there (`tally_of_fold`), and nothing of
it depends on the order in which the snapshot holds its records
(`routeEvidence_perm`).
-/

namespace BitRouter.Policy

/-! ## The first of each key -/

/-- The attributions of some records, in their order. -/
def attributionsOf (records : List EvalEvidenceRecord) : List Attribution :=
  records.flatMap fun record => record.subject.decisions.filterMap (attributionOf record)

def creditedFrom (seen : List (String × String × String)) : List Attribution → List Attribution
  | [] => []
  | a :: as =>
    if seen.contains a.key then creditedFrom seen as else a :: creditedFrom (seen ++ [a.key]) as

variable {a : Attribution}

theorem creditedFrom_seen {seen : List (String × String × String)} (h : a.key ∈ seen)
    (as : List Attribution) :
    creditedFrom seen (a :: as) = creditedFrom seen as :=
  if_pos (List.contains_iff_mem.mpr h)

theorem creditedFrom_new {seen : List (String × String × String)} (h : a.key ∉ seen)
    (as : List Attribution) :
    creditedFrom seen (a :: as) = a :: creditedFrom (seen ++ [a.key]) as :=
  if_neg (mt List.contains_iff_mem.mp h)

/-- **What some records credit.** -/
def credited (records : List EvalEvidenceRecord) : List Attribution :=
  creditedFrom [] (attributionsOf records)

variable {as : List Attribution}

theorem mem_of_creditedFrom :
    ∀ {seen : List (String × String × String)}, a ∈ creditedFrom seen as →
      a ∈ as ∧ a.key ∉ seen := by
  induction as with
  | nil => exact fun h => absurd h List.not_mem_nil
  | cons b as ih =>
    intro seen h
    by_cases hb : b.key ∈ seen
    · rw [creditedFrom_seen hb] at h
      exact ⟨List.mem_cons_of_mem b (ih h).1, (ih h).2⟩
    · rw [creditedFrom_new hb] at h
      rcases List.mem_cons.mp h with rfl | h
      · exact ⟨List.mem_cons_self, hb⟩
      · obtain ⟨hmem, hseen⟩ := ih h
        exact ⟨List.mem_cons_of_mem b hmem, fun hin => hseen (List.mem_append_left _ hin)⟩

/-- **A key is credited once.** -/
theorem creditedFrom_nodup (as : List Attribution) :
    ∀ seen, ((creditedFrom seen as).map Attribution.key).Nodup := by
  induction as with
  | nil => exact fun _ => List.nodup_nil
  | cons b as ih =>
    intro seen
    by_cases hb : b.key ∈ seen
    · rw [creditedFrom_seen hb]
      exact ih seen
    · rw [creditedFrom_new hb, List.map_cons, List.nodup_cons]
      refine ⟨fun hmem => ?_, ih _⟩
      obtain ⟨a, ha, hkey⟩ := List.mem_map.mp hmem
      exact (mem_of_creditedFrom ha).2
        (hkey ▸ List.mem_append_right _ (List.mem_singleton_self _))

/-- **A key that could be credited is.** -/
theorem exists_creditedFrom {b : Attribution} :
    ∀ {seen : List (String × String × String)}, b ∈ as → b.key ∉ seen →
      ∃ a ∈ creditedFrom seen as, a.key = b.key := by
  induction as with
  | nil => exact fun h => absurd h List.not_mem_nil
  | cons c as ih =>
    intro seen hb hseen
    by_cases hkey : c.key = b.key
    · rw [creditedFrom_new (hkey ▸ hseen)]
      exact ⟨c, List.mem_cons_self, hkey⟩
    · have hmem : b ∈ as := (List.mem_cons.mp hb).resolve_left fun h => hkey (h ▸ rfl)
      by_cases hc : c.key ∈ seen
      · rw [creditedFrom_seen hc]
        exact ih hmem hseen
      · rw [creditedFrom_new hc]
        have hnext : b.key ∉ seen ++ [c.key] := by
          rw [List.mem_append, List.mem_singleton, not_or]
          exact ⟨hseen, fun h => hkey h.symm⟩
        obtain ⟨a, ha, heq⟩ := ih hmem hnext
        exact ⟨a, List.mem_cons_of_mem c ha, heq⟩

/-- **What is credited comes first** among those of its key. -/
theorem first_of_creditedFrom {R : Attribution → Attribution → Prop} (hrefl : ∀ a, R a a)
    (hsorted : as.Pairwise R) :
    ∀ {seen : List (String × String × String)} {a b : Attribution}, a ∈ creditedFrom seen as →
      b ∈ as → b.key = a.key → R a b := by
  induction as with
  | nil => exact fun h => absurd h List.not_mem_nil
  | cons c as ih =>
    intro seen a b ha hb hkey
    obtain ⟨hc, hsorted⟩ := List.pairwise_cons.mp hsorted
    have hseen := (mem_of_creditedFrom ha).2
    by_cases hin : c.key ∈ seen
    · rw [creditedFrom_seen hin] at ha
      rcases List.mem_cons.mp hb with rfl | hb
      · exact absurd (hkey ▸ hin) hseen
      · exact ih hsorted ha hb hkey
    · rw [creditedFrom_new hin] at ha
      rcases List.mem_cons.mp ha with rfl | ha
      · rcases List.mem_cons.mp hb with rfl | hb
        · exact hrefl b
        · exact hc b hb
      · rcases List.mem_cons.mp hb with rfl | hb
        · refine absurd ?_ (mem_of_creditedFrom ha).2
          rw [← hkey]
          exact List.mem_append_right _ (List.mem_singleton_self _)
        · exact ih hsorted ha hb hkey

/-! ## The loop -/

theorem record_eq (record : EvalEvidenceRecord) (decisions : List EvalDecisionRef) :
    ∀ s : Attributing, decisions.foldlM (Attributing.decision record) s =
      (decisions.filterMap (attributionOf record)).foldlM Attributing.add s := by
  induction decisions with
  | nil => exact fun _ => rfl
  | cons decision decisions ih =>
    intro s
    rw [List.foldlM_cons, Attributing.decision]
    cases h : attributionOf record decision with
    | none =>
      rw [List.filterMap_cons_none h]
      exact ih s
    | some a =>
      rw [List.filterMap_cons_some h, List.foldlM_cons]
      exact bind_congr ih

theorem records_eq (records : List EvalEvidenceRecord) :
    ∀ s : Attributing, records.foldlM Attributing.record s =
      (attributionsOf records).foldlM Attributing.add s := by
  induction records with
  | nil => exact fun _ => rfl
  | cons record records ih =>
    intro s
    rw [List.foldlM_cons, attributionsOf, List.flatMap_cons, List.foldlM_append,
      Attributing.record, record_eq]
    exact bind_congr ih

/-- **The loop adds what is credited.** -/
theorem routes_of_fold (as : List Attribution) :
    ∀ s : Attributing, (as.foldlM Attributing.add s).map (·.routes) =
      (creditedFrom s.attributed as).foldlM addAttribution s.routes := by
  induction as with
  | nil => exact fun _ => rfl
  | cons a as ih =>
    intro s
    rw [List.foldlM_cons, Attributing.add]
    by_cases ha : a.key ∈ s.attributed
    · rw [if_pos ha, creditedFrom_seen ha]
      exact ih s
    · rw [if_neg ha, creditedFrom_new ha, List.foldlM_cons]
      cases addAttribution s.routes a with
      | error e => rfl
      | ok routes => exact ih { attributed := s.attributed ++ [a.key], routes }

/-! ## The tally of a tier -/

/-- What some attributions come to. -/
def tally (as : List Attribution) : TierEvalEvidence := as.foldl TierEvalEvidence.credit {}

/-- The tally of a tier that is credited at all. -/
def tallied (as : List Attribution) : Option TierEvalEvidence :=
  if as.isEmpty then none else some (tally as)

def ofTier (as : List Attribution) (tier : String) : List Attribution :=
  as.filter (·.decision.selectedTier = tier)

/-- Those of a projection under a policy. -/
def ofRoute (as : List Attribution) (policy projection : String) : List Attribution :=
  as.filter fun a => a.decision.policy = policy ∧ a.decision.routeProjection = projection

/-- The baseline that is named first. -/
def namedBaseline (as : List Attribution) : Option String :=
  as.findSome? (·.decision.baselineTier)

def TierEvalEvidence.quality (e : TierEvalEvidence) : TierEvalEvidence :=
  { e with costMicroUsd := {}, latencyMs := {} }

theorem tally_concat (as : List Attribution) (a : Attribution) :
    tally (as ++ [a]) = (tally as).credit a := by
  rw [tally, List.foldl_append]
  rfl

theorem tallied_concat (as : List Attribution) (a : Attribution) :
    tallied (as ++ [a]) = some ((tally as).credit a) := by
  rw [tallied, tally_concat, if_neg (by simp)]

theorem ofTier_concat (as : List Attribution) (a : Attribution) (tier : String) :
    ofTier (as ++ [a]) tier =
      if a.decision.selectedTier = tier then ofTier as tier ++ [a] else ofTier as tier := by
  rw [ofTier, List.filter_append, List.filter_cons, List.filter_nil]
  by_cases h : a.decision.selectedTier = tier
  · rw [if_pos (decide_eq_true h), if_pos h]
    rfl
  · rw [if_neg (by simpa using h), if_neg h, List.append_nil]
    rfl

theorem ofRoute_concat (as : List Attribution) (a : Attribution) (policy projection : String) :
    ofRoute (as ++ [a]) policy projection =
      if a.decision.policy = policy ∧ a.decision.routeProjection = projection then
        ofRoute as policy projection ++ [a]
      else ofRoute as policy projection := by
  rw [ofRoute, List.filter_append, List.filter_cons, List.filter_nil]
  by_cases h : a.decision.policy = policy ∧ a.decision.routeProjection = projection
  · rw [if_pos (decide_eq_true h), if_pos h]
    rfl
  · rw [if_neg (by rwa [decide_eq_true_eq]), if_neg h, List.append_nil]
    rfl

theorem quality_credit (e : TierEvalEvidence) (a : Attribution) :
    (e.credit a).quality = e.quality.credit a := by
  unfold TierEvalEvidence.quality TierEvalEvidence.credit TierEvalEvidence.addQuality
  split <;> rfl

theorem quality_of_add {e e' : TierEvalEvidence} (h : e.add a = .ok e') :
    e'.quality = e.quality.credit a := by
  simp only [TierEvalEvidence.add, bind_eq_ok, pure_eq_ok] at h
  obtain ⟨cost, -, latency, -, rfl⟩ := h
  rw [← quality_credit]
  rfl

/-- **The evidence of a route is the tally of some attributions.** -/
structure RouteEvalEvidence.Tallies (route : RouteEvalEvidence) (as : List Attribution) : Prop where
  baseline : route.baselineTier = namedBaseline as
  tiers : ∀ tier, (route.tiers[tier]?).map (·.quality) = tallied (ofTier as tier)

theorem tallies_nil : ({} : RouteEvalEvidence).Tallies [] where
  baseline := rfl
  tiers tier := by
    rfl

theorem mergeBaseline_eq_ok {existing named merged : Option String}
    (h : mergeBaseline existing named = .ok merged) : merged = existing.or named := by
  unfold mergeBaseline at h
  split at h
  · simp only [bind_eq_ok, ensure_eq_ok, pure_eq_ok] at h
    obtain ⟨_, -, rfl⟩ := h
    rfl
  · exact (Except.ok.inj h).symm
  · exact (Except.ok.inj h).symm

theorem RouteEvalEvidence.Tallies.add {route route' : RouteEvalEvidence} {as : List Attribution}
    {a : Attribution} (htallies : route.Tallies as) (h : route.add a = .ok route') :
    route'.Tallies (as ++ [a]) := by
  simp only [RouteEvalEvidence.add, bind_eq_ok, pure_eq_ok] at h
  obtain ⟨baseline, hbaseline, e, he, rfl⟩ := h
  refine ⟨?_, fun tier => ?_⟩
  · show baseline = namedBaseline (as ++ [a])
    rw [mergeBaseline_eq_ok hbaseline, htallies.baseline, namedBaseline, namedBaseline,
      List.findSome?_append]
    cases as.findSome? (·.decision.baselineTier) with
    | some b => rfl
    | none => simp
  · show ((route.tiers.insert a.decision.selectedTier e)[tier]?).map (·.quality) = _
    rw [StrMap.getElem?_insert]
    have hold := htallies.tiers tier
    by_cases htier : a.decision.selectedTier = tier
    · have hquality : ((route.tiers[tier]?).getD {}).quality = tally (ofTier as tier) := by
        rw [tallied] at hold
        cases hlookup : route.tiers[tier]? with
        | none =>
          rw [hlookup] at hold
          split at hold
          · next hempty =>
            rw [List.isEmpty_iff.mp hempty]
            rfl
          · cases hold
        | some e =>
          rw [hlookup] at hold
          split at hold
          · cases hold
          · exact Option.some.inj hold
      rw [if_pos htier, ofTier_concat, if_pos htier, tallied_concat, ← hquality, ← htier,
        ← quality_of_add he]
      rfl
    · rw [if_neg htier, ofTier_concat, if_neg htier]
      exact hold

def routeAt (routes : RouteEvidence) (policy projection : String) : Option RouteEvalEvidence :=
  routes[policy]?.bind (·[projection]?)

variable {routes : RouteEvidence}

theorem of_addAttribution {routes' : RouteEvidence} (h : addAttribution routes a = .ok routes') :
    ∃ route, ((routeAt routes a.decision.policy a.decision.routeProjection).getD
      {}).add a = .ok route
      ∧ ∀ policy projection, routeAt routes' policy projection =
        if a.decision.policy = policy ∧ a.decision.routeProjection = projection then some route
        else routeAt routes policy projection := by
  simp only [addAttribution, bind_eq_ok, pure_eq_ok] at h
  obtain ⟨route, hroute, rfl⟩ := h
  refine ⟨route, ?_, fun policy projection => ?_⟩
  · rw [← hroute, routeAt]
    cases routes[a.decision.policy]? with
    | none => rw [Option.getD_none, StrMap.getElem?_empty]; rfl
    | some projections => rfl
  · rw [routeAt, StrMap.getElem?_insert]
    by_cases hpolicy : a.decision.policy = policy
    · rw [if_pos hpolicy, Option.bind_some, StrMap.getElem?_insert]
      by_cases hprojection : a.decision.routeProjection = projection
      · rw [if_pos hprojection, if_pos ⟨hpolicy, hprojection⟩]
      · rw [if_neg hprojection, if_neg fun h => hprojection h.2, routeAt, hpolicy]
        cases routes[policy]? with
        | none => rw [Option.getD_none, StrMap.getElem?_empty]; rfl
        | some projections => rfl
    · rw [if_neg hpolicy, if_neg fun h => hpolicy h.1, routeAt]

def Tallied (routes : RouteEvidence) (as : List Attribution) : Prop :=
  ∀ policy projection,
    ((routeAt routes policy projection).getD {}).Tallies (ofRoute as policy projection)
      ∧ (routeAt routes policy projection = none ↔ ofRoute as policy projection = [])

/-- **The evidence is the tally of what is credited.** -/
theorem tally_of_fold : ∀ {before : List Attribution}
    {routes routes' : RouteEvidence}, Tallied routes before →
      as.foldlM addAttribution routes = .ok routes' → Tallied routes' (before ++ as) := by
  induction as with
  | nil =>
    intro before routes routes' htallied h
    rw [List.foldlM_nil, pure_eq_ok] at h
    rwa [← h, List.append_nil]
  | cons a as ih =>
    intro before routes routes' htallied h
    rw [List.foldlM_cons, bind_eq_ok] at h
    obtain ⟨routes₁, hadd, hrest⟩ := h
    rw [List.append_cons]
    refine ih (fun policy projection => ?_) hrest
    obtain ⟨route, hroute, hlookup⟩ := of_addAttribution hadd
    rw [hlookup]
    by_cases hat : a.decision.policy = policy ∧ a.decision.routeProjection = projection
    · obtain ⟨rfl, rfl⟩ := hat
      rw [if_pos ⟨rfl, rfl⟩, ofRoute_concat, if_pos ⟨rfl, rfl⟩]
      exact ⟨(htallied _ _).1.add hroute, by simp⟩
    · rw [if_neg hat, ofRoute_concat, if_neg hat]
      exact htallied policy projection

theorem tallied_empty : Tallied ∅ [] := by
  intro policy projection
  have hnone : routeAt ∅ policy projection = none := by
    rfl
  exact ⟨tallies_nil, fun _ => rfl, fun _ => rfl⟩

/-! ### What a tally says of the attributions -/

theorem independentTasks_tally (as : List Attribution) :
    (tally as).independentTasks =
      ((as.filter (·.quality)).map (·.record.subject.subjectId)).toFinset := by
  induction as using List.reverseRecOn with
  | nil => rfl
  | append_singleton as a ih =>
    have hcredit : ((tally as).credit a).independentTasks =
        ((tally as).addQuality a).independentTasks := rfl
    rw [tally_concat, hcredit, TierEvalEvidence.addQuality, List.filter_append, List.map_append,
      List.toFinset_append, ← ih]
    cases hquality : a.quality with
    | true =>
      ext task
      simp [hquality]
    | false => simp [hquality]

theorem satU32_eq_zero {n : ℕ} : satU32 n = 0 ↔ n = 0 := by
  unfold satU32
  omega

/-- **No violation in the tally, none credited.** -/
theorem criticalViolations_tally :
    (tally as).criticalViolations = 0 ↔ ∀ a ∈ as, a.violations = 0 := by
  induction as using List.reverseRecOn with
  | nil => simp [tally]
  | append_singleton as a ih =>
    have hcredit : ((tally as).credit a).criticalViolations =
        satU32 ((tally as).criticalViolations + satU32 a.violations) := by
      unfold TierEvalEvidence.credit TierEvalEvidence.addQuality
      split <;> rfl
    rw [tally_concat, hcredit, satU32_eq_zero, Nat.add_eq_zero_iff, satU32_eq_zero, ih,
      List.forall_mem_append, List.forall_mem_singleton]

/-! ## The order of the records -/

/-- A task before an episode, and the latest submission first. -/
def Precedes (a b : EvalEvidenceRecord × ℤ) : Prop :=
  b.1.subject.scope.rank < a.1.subject.scope.rank ∨
    b.1.subject.scope.rank = a.1.subject.scope.rank ∧ b.2 ≤ a.2

theorem attributionCmp_trans : Std.TransCmp attributionCmp :=
  inferInstanceAs (Std.TransCmp (compareLex (compareOn _) (compareLex (compareOn _) (compareOn _))))

theorem attributionCmp_total (a b : EvalEvidenceRecord × ℤ) :
    (attributionCmp a b).isLE ∨ (attributionCmp b a).isLE := by
  have htrans := attributionCmp_trans
  cases h : attributionCmp a b with
  | lt => exact .inl rfl
  | eq => exact .inl rfl
  | gt => exact .inr (Std.OrientedCmp.isGE_iff_isLE.mp (by rw [h]; rfl))

/-- **Records are in the order of attribution.** -/
theorem sortRecords_pairwise (entries : List (EvalEvidenceRecord × ℤ)) :
    (sortRecords entries).Pairwise fun a b => (attributionCmp a b).isLE := by
  have htrans := attributionCmp_trans
  have htotal : Std.Total fun a b : EvalEvidenceRecord × ℤ => ((attributionCmp a b).isLE : Prop) :=
    ⟨attributionCmp_total⟩
  have hIsTrans : IsTrans (EvalEvidenceRecord × ℤ) fun a b => (attributionCmp a b).isLE :=
    ⟨fun _ _ _ => Std.TransCmp.isLE_trans⟩
  exact List.pairwise_insertionSort _ entries

theorem precedes_of_isLE {a b : EvalEvidenceRecord × ℤ} (h : (attributionCmp a b).isLE) :
    Precedes a b := by
  have hb : b.1.subject.scope.rank ≤ 2 := by cases b.1.subject.scope <;> decide
  simp only [attributionCmp, compareLex, compareOn, Ordering.isLE_then_iff_or, compare_lt_iff_lt,
    compare_eq_iff_eq] at h
  unfold Precedes
  omega

theorem resultId_of_isLE {a b : EvalEvidenceRecord × ℤ} (hab : (attributionCmp a b).isLE)
    (hba : (attributionCmp b a).isLE) : a.1.resultId = b.1.resultId := by
  have htrans := attributionCmp_trans
  have heq : attributionCmp a b = .eq := Std.OrientedCmp.isLE_antisymm hab hba
  simp only [attributionCmp, compareLex, compareOn, Ordering.then_eq_eq] at heq
  exact bytes_injective (Std.compare_eq_iff_eq.mp heq.2.2)

variable {entries : List (EvalEvidenceRecord × ℤ)}

/-- **The order does not depend on the order of the records.** -/
theorem sortRecords_perm {entries' : List (EvalEvidenceRecord × ℤ)} (h : entries.Perm entries')
    (hids : ∀ a ∈ entries, ∀ b ∈ entries, a.1.resultId = b.1.resultId → a = b) :
    sortRecords entries = sortRecords entries' := by
  refine List.Perm.eq_of_pairwise (fun a b ha hb hab hba => ?_) (sortRecords_pairwise entries)
    (sortRecords_pairwise entries') ?_
  · have ha := (List.mem_insertionSort _).mp ha
    have hb := h.symm.subset ((List.mem_insertionSort _).mp hb)
    exact hids a ha b hb (resultId_of_isLE hab hba)
  · exact (List.perm_insertionSort _ entries).trans
      (h.trans (List.perm_insertionSort _ entries').symm)

/-! ## The snapshot -/

def EvalEvidenceSnapshot.evaluated (snapshot : EvalEvidenceSnapshot) : List EvalEvidenceRecord :=
  snapshot.records.filter (·.subject.scope ≠ .request)

/-- **What a snapshot credits.** -/
def EvalEvidenceSnapshot.credited (parseTime : String → Except String ℤ)
    (snapshot : EvalEvidenceSnapshot) : Except String (List Attribution) := do
  let entries ← snapshot.entries parseTime
  return Policy.credited ((sortRecords entries).map Prod.fst)

variable {records : List EvalEvidenceRecord}

section Snapshot

variable {parseTime : String → Except String ℤ} {snapshot : EvalEvidenceSnapshot}

theorem record_of_attributionOf {record : EvalEvidenceRecord} {decision : EvalDecisionRef}
    (h : attributionOf record decision = some a) : a.record = record := by
  obtain ⟨credit, -, h⟩ := Option.bind_eq_some_iff.mp h
  simp only [Option.ite_none_left_eq_some] at h
  obtain ⟨-, h⟩ := h
  obtain rfl := Option.some.inj h
  rfl

theorem forall_entries
    (h : List.Forall₂ (fun record entry => (do
      return (record, ← parseTime record.result.submittedAt) : Except String _) = .ok entry)
      records entries) :
    entries.map Prod.fst = records ∧
      ∀ entry ∈ entries, parseTime entry.1.result.submittedAt = .ok entry.2 := by
  induction h with
  | nil => exact ⟨rfl, fun _ h => absurd h List.not_mem_nil⟩
  | cons hentry _ ih =>
    simp only [bind_eq_ok, pure_eq_ok] at hentry
    obtain ⟨time, htime, rfl⟩ := hentry
    refine ⟨by rw [List.map_cons, ih.1], fun entry hmem => ?_⟩
    rcases List.mem_cons.mp hmem with rfl | hmem
    · exact htime
    · exact ih.2 entry hmem

theorem of_entries (h : snapshot.entries parseTime = .ok entries) :
    entries.map Prod.fst = snapshot.evaluated ∧
      ∀ entry ∈ entries, parseTime entry.1.result.submittedAt = .ok entry.2 := by
  rw [EvalEvidenceSnapshot.entries, mapM_eq_ok] at h
  exact forall_entries h

/-- **The evidence tallies what the snapshot credits.** -/
theorem credited_of_routeEvidence (h : snapshot.routeEvidence parseTime = .ok routes) :
    ∃ as, snapshot.credited parseTime = .ok as ∧ Tallied routes as := by
  simp only [EvalEvidenceSnapshot.routeEvidence, bind_eq_ok, pure_eq_ok] at h
  obtain ⟨entries, hentries, s, hs, rfl⟩ := h
  refine ⟨Policy.credited ((sortRecords entries).map Prod.fst), ?_, ?_⟩
  · rw [EvalEvidenceSnapshot.credited, hentries]
    rfl
  · have hfold : ((sortRecords entries).map Prod.fst).foldlM Attributing.record {} = .ok s := by
      rw [List.foldlM_map]
      exact hs
    have hroutes := routes_of_fold (attributionsOf ((sortRecords entries).map Prod.fst)) {}
    rw [← records_eq, hfold] at hroutes
    exact tally_of_fold tallied_empty hroutes.symm

/-- **How a snapshot credits**: each key once, from the record that comes first. -/
structure CreditedOnce (parseTime : String → Except String ℤ) (snapshot : EvalEvidenceSnapshot)
    (as : List Attribution) : Prop where
  once : (as.map Attribution.key).Nodup
  sound : ∀ a ∈ as, a ∈ attributionsOf snapshot.evaluated
  complete : ∀ b ∈ attributionsOf snapshot.evaluated, ∃ a ∈ as, a.key = b.key
  first : ∀ a ∈ as, ∀ b ∈ attributionsOf snapshot.evaluated, b.key = a.key →
    ∀ s t, parseTime a.record.result.submittedAt = .ok s →
      parseTime b.record.result.submittedAt = .ok t → Precedes (a.record, s) (b.record, t)

theorem attributionsOf_perm {records' : List EvalEvidenceRecord} (h : records.Perm records') :
    (attributionsOf records).Perm (attributionsOf records') :=
  h.flatMap_right _

theorem creditedOnce (h : snapshot.credited parseTime = .ok as) :
    CreditedOnce parseTime snapshot as := by
  obtain ⟨entries, hentries, h⟩ := bind_eq_ok.mp h
  obtain rfl := pure_eq_ok.mp h
  obtain ⟨hfst, htimes⟩ := of_entries hentries
  have hperm : (attributionsOf ((sortRecords entries).map Prod.fst)).Perm
      (attributionsOf snapshot.evaluated) := by
    rw [← hfst]
    exact attributionsOf_perm ((List.perm_insertionSort _ entries).map Prod.fst)
  have hsorted : (attributionsOf ((sortRecords entries).map Prod.fst)).Pairwise fun a b =>
      ∀ s t, parseTime a.record.result.submittedAt = .ok s →
        parseTime b.record.result.submittedAt = .ok t → Precedes (a.record, s) (b.record, t) := by
    have hsame : ∀ entry ∈ sortRecords entries, ∀ s,
        parseTime entry.1.result.submittedAt = .ok s → entry = (entry.1, s) := by
      intro entry hentry s hs
      have htime := htimes entry ((List.mem_insertionSort _).mp hentry)
      rw [htime] at hs
      rw [← Except.ok.inj hs]
    have hrecord : ∀ (record : EvalEvidenceRecord) a,
        a ∈ record.subject.decisions.filterMap (attributionOf record) → a.record = record := by
      intro record a ha
      obtain ⟨decision, -, ha⟩ := List.mem_filterMap.mp ha
      exact record_of_attributionOf ha
    rw [attributionsOf, List.pairwise_flatMap, List.pairwise_map]
    constructor
    · intro record _
      refine List.pairwise_of_forall_mem_list fun a ha b hb s t hs ht => ?_
      rw [hrecord record a ha] at hs ⊢
      rw [hrecord record b hb] at ht ⊢
      rw [hs] at ht
      exact .inr ⟨rfl, (Except.ok.inj ht).symm.le⟩
    · refine (sortRecords_pairwise entries).imp_of_mem fun {entry entry'} he he' hle => ?_
      intro a ha b hb s t hs ht
      rw [hrecord entry.1 a ha] at hs ⊢
      rw [hrecord entry'.1 b hb] at ht ⊢
      rw [← hsame entry he s hs, ← hsame entry' he' t ht]
      exact precedes_of_isLE hle
  exact {
    once := creditedFrom_nodup _ _
    sound := fun a ha => hperm.subset (mem_of_creditedFrom ha).1
    complete := fun b hb => exists_creditedFrom (hperm.symm.subset hb) List.not_mem_nil
    first := fun a ha b hb hkey => by
      refine first_of_creditedFrom (fun a s t hs ht => ?_) hsorted ha (hperm.symm.subset hb) hkey
      rw [hs] at ht
      exact .inr ⟨rfl, (Except.ok.inj ht).symm.le⟩ }

/-- **The evidence does not depend on the order of the records.** -/
theorem routeEvidence_perm (h : snapshot.routeEvidence parseTime = .ok routes)
    (hids : (snapshot.records.map (·.resultId)).Nodup) (hperm : records.Perm snapshot.records) :
    ({ snapshot with records } : EvalEvidenceSnapshot).routeEvidence parseTime = .ok routes := by
  simp only [EvalEvidenceSnapshot.routeEvidence, bind_eq_ok, pure_eq_ok] at h ⊢
  obtain ⟨entries, hentries, s, hs, rfl⟩ := h
  obtain ⟨hfst, htimes⟩ := of_entries hentries
  have hevaluated : (records.filter (·.subject.scope ≠ .request)).Perm snapshot.evaluated :=
    hperm.filter _
  rw [EvalEvidenceSnapshot.entries, mapM_eq_ok] at hentries
  obtain ⟨entries', hentries', hperm'⟩ := List.perm_comp_forall₂ hevaluated hentries
  refine ⟨entries', mapM_eq_ok.mpr hentries', s, ?_, rfl⟩
  rw [← hs, sortRecords_perm hperm'.symm]
  intro a ha b hb hid
  -- two entries of one id are of one record, and so of one instant
  have hinjective : ∀ x ∈ snapshot.records, ∀ y ∈ snapshot.records,
      x.resultId = y.resultId → x = y := fun x hx y hy => List.inj_on_of_nodup_map hids hx hy
  have hmem : ∀ entry ∈ entries, entry.1 ∈ snapshot.records := fun entry hentry =>
    List.mem_of_mem_filter (hfst ▸ List.mem_map_of_mem hentry)
  have hrecord := hinjective a.1 (hmem a ha) b.1 (hmem b hb) hid
  have htime := htimes a ha
  rw [hrecord, htimes b hb] at htime
  exact Prod.ext hrecord (Except.ok.inj htime).symm

end Snapshot

end BitRouter.Policy
