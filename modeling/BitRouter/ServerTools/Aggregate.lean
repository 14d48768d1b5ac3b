import BitRouter.ServerTools.Loop
import Mathlib.Data.List.Induction

/-!
# The usage of a run

The loop adds up what its turns report (`addUsage`). The counters are summed and
capped, whatever is reported. The origin and the payloads are not always those of
all turns: a turn that reports nothing is left out, and a total that looks like
no report at all – counters zero, origin unknown, no payload – is taken for one,
so what came before it is forgotten (`Forgotten`). The aggregate tells all of it
exactly where nothing that matters is forgotten or left out (`Covered`).
-/

namespace BitRouter.ServerTools

open Ai
open Registry (Value)

variable {us pre post : List Usage} {u total : Usage} {v : Value}

/-! ## What an aggregate should tell -/

/-- What the turns of a run reported. -/
def reported (reports : List (Option Usage)) : List Usage := reports.filterMap id

/-- The payloads of reports. -/
def payloads (us : List Usage) : List Value := us.filterMap Usage.raw

def wrap (fragments : List Value) : Value :=
  .object [("provider_usage_fragments", .array fragments)]

/-- The fragments a payload is read as. -/
def fragmentsOf (raw : Value) : Option (List Value) :=
  (raw.get "provider_usage_fragments").bind Value.asArray

/-- **A payload that carries payloads**: a single one as it is, or all of them as
fragments of one. -/
def Carries (payloads : List Value) (raw : Option Value) : Prop :=
  (payloads = [] ∧ raw = none) ∨ (∃ v, payloads = [v] ∧ raw = some v)
    ∨ (payloads ≠ [] ∧ raw = some (wrap payloads))

/-- A counter that is the capped sum over reports. -/
def SumsTo (counter : Usage → UInt64) (us : List Usage) (total : Usage) : Prop :=
  (counter total).toNat = min (us.map fun u => (counter u).toNat).sum (2 ^ 64 - 1)

/-- **An aggregate that tells what the turns reported.** -/
structure Faithful (reports : List (Option Usage)) (total : Usage) : Prop where
  promptTokens : SumsTo Usage.promptTokens (reported reports) total
  completionTokens : SumsTo Usage.completionTokens (reported reports) total
  reasoningTokens : SumsTo Usage.reasoningTokens (reported reports) total
  cacheReadTokens : SumsTo Usage.cacheReadTokens (reported reports) total
  cacheWriteTokens : SumsTo Usage.cacheWriteTokens (reported reports) total
  webSearchCount : SumsTo Usage.webSearchCount (reported reports) total
  payloads : Carries (payloads (reported reports)) total.raw
  origin : total.origin = .providerReported →
    ∀ r ∈ reports, ∃ u, r = some u ∧ u.origin = .providerReported

/-! ## When it does -/

/-- A report of nothing but an origin. -/
def Bare (u : Usage) : Prop :=
  u.promptTokens = 0 ∧ u.completionTokens = 0 ∧ u.reasoningTokens = 0 ∧ u.cacheReadTokens = 0
    ∧ u.cacheWriteTokens = 0 ∧ u.webSearchCount = 0 ∧ u.raw = none

/-- Origins that cancel each other. -/
def Clash (o o' : UsageOrigin) : Prop :=
  (o = .providerReported ∧ o' = .authoritativeReceipt)
    ∨ (o = .authoritativeReceipt ∧ o' = .providerReported)

/-- **Reports that are forgotten**: they are bare, and the last of them has an
unknown origin, or cancels the origin of those before it. -/
inductive Forgotten : List Usage → Prop
  | nil : Forgotten []
  | unknown {us : List Usage} {u : Usage} : (∀ w ∈ us, Bare w) → Bare u → u.origin = .unknown →
      Forgotten (us ++ [u])
  | clash {us ws : List Usage} {u : Usage} {o : UsageOrigin} : Forgotten us → ws ≠ [] →
      (∀ w ∈ ws, Bare w ∧ w.origin = o) → Bare u → Clash o u.origin →
      Forgotten (us ++ ws ++ [u])

/-- **Nothing that matters is forgotten or left out.** Where all reports after
forgotten ones are the provider's, so are the forgotten ones, and every turn has
reported; and where a payload after forgotten reports is itself read as fragments,
no payload follows it. -/
structure Covered (reports : List (Option Usage)) : Prop where
  origin : ∀ pre post, reported reports = pre ++ post → Forgotten pre → post ≠ [] →
    (∀ u ∈ post, u.origin = .providerReported) →
    none ∉ reports ∧ ∀ u ∈ pre, u.origin = .providerReported
  payload : ∀ pre u post, reported reports = pre ++ u :: post → Forgotten pre →
    (u.raw.bind fragmentsOf).isSome = true → payloads post = []

/-! ## Counters -/

theorem saturatingAdd_toNat (a b : UInt64) :
    (saturatingAdd a b).toNat = min (a.toNat + b.toNat) (2 ^ 64 - 1) := by
  unfold saturatingAdd
  split
  · next hfits =>
    rw [UInt64.toNat_add, Nat.mod_eq_of_lt hfits]
    omega
  · next hover =>
    rw [UInt64.toNat_ofNat', Nat.mod_eq_of_lt (by decide)]
    omega

theorem saturatingAdd_eq_zero {a b : UInt64} : saturatingAdd a b = 0 ↔ a = 0 ∧ b = 0 := by
  rw [← UInt64.toNat_inj, ← UInt64.toNat_inj, ← UInt64.toNat_inj, saturatingAdd_toNat]
  show _ = 0 ↔ _ = 0 ∧ _ = 0
  omega

@[simp] theorem saturatingAdd_zero (b : UInt64) : saturatingAdd 0 b = b := by
  rw [← UInt64.toNat_inj, saturatingAdd_toNat]
  have hb := b.toNat_lt
  show min (0 + b.toNat) _ = b.toNat
  omega

/-- The total of reports. -/
def sumUsage (us : List Usage) : Usage := us.foldl addUsage {}

@[simp] theorem sumUsage_concat (us : List Usage) (u : Usage) :
    sumUsage (us ++ [u]) = addUsage (sumUsage us) u :=
  List.foldl_concat ..

/-- **A counter is the capped sum** of what is reported. -/
theorem sumsTo_sumUsage {counter : Usage → UInt64}
    (hadd : ∀ total u, counter (addUsage total u) = saturatingAdd (counter total) (counter u))
    (hempty : counter {} = 0) (us : List Usage) : SumsTo counter us (sumUsage us) := by
  induction us using List.reverseRecOn with
  | nil =>
    show (counter {}).toNat = _
    rw [hempty]
    rfl
  | append_singleton us u ih =>
    unfold SumsTo at ih ⊢
    rw [sumUsage_concat, hadd, saturatingAdd_toNat, ih, List.map_append, List.sum_append]
    simp only [List.map_cons, List.map_nil, List.sum_cons, List.sum_nil, Nat.add_zero]
    omega

/-! ## Forgotten reports -/

theorem isEmpty_iff : total.isEmpty = true ↔ Bare total ∧ total.origin = .unknown := by
  unfold Usage.isEmpty Bare
  simp only [Bool.and_eq_true, decide_eq_true_eq, Option.isNone_iff_eq_none]
  tauto

theorem addUsage_of_isEmpty (h : total.isEmpty = true) (u : Usage) : addUsage total u = u := by
  obtain ⟨⟨h1, h2, h3, h4, h5, h6, -⟩, -⟩ := isEmpty_iff.mp h
  simp only [addUsage, h1, h2, h3, h4, h5, h6, saturatingAdd_zero, h, if_true]

theorem origin_addUsage (h : total.isEmpty = false) (u : Usage) :
    (addUsage total u).origin = combinedUsageOrigin total.origin u.origin := by
  show (if total.isEmpty then _ else _) = _
  rw [h]
  rfl

theorem raw_addUsage (h : total.isEmpty = false) (u : Usage) :
    (addUsage total u).raw = combinedRaw total.raw u.raw := by
  show (if total.isEmpty then _ else _) = _
  rw [h]
  rfl

theorem combinedRaw_eq_none {a b : Option Value} :
    combinedRaw a b = none ↔ a = none ∧ b = none := by
  cases b <;> simp [combinedRaw]

theorem bare_addUsage : Bare (addUsage total u) ↔ Bare total ∧ Bare u := by
  cases h : total.isEmpty with
  | true =>
    rw [addUsage_of_isEmpty h]
    exact (and_iff_right (isEmpty_iff.mp h).1).symm
  | false =>
    unfold Bare
    rw [raw_addUsage h, combinedRaw_eq_none]
    simp only [addUsage, saturatingAdd_eq_zero]
    tauto

theorem bare_sumUsage : Bare (sumUsage us) ↔ ∀ u ∈ us, Bare u := by
  induction us using List.reverseRecOn with
  | nil => simp [sumUsage, Bare]
  | append_singleton us u ih =>
    rw [sumUsage_concat, bare_addUsage, ih]
    simp [or_imp, forall_and]

def Pure (o : UsageOrigin) : Prop := o = .providerReported ∨ o = .authoritativeReceipt

theorem combinedUsageOrigin_eq_pure {a b o : UsageOrigin} (ho : Pure o) :
    combinedUsageOrigin a b = o ↔ a = o ∧ b = o := by
  rcases ho with rfl | rfl <;> cases a <;> cases b <;> decide

theorem combinedUsageOrigin_eq_unknown {a b : UsageOrigin} :
    combinedUsageOrigin a b = .unknown ↔ a = .unknown ∨ b = .unknown ∨ Clash a b := by
  cases a <;> cases b <;> simp [combinedUsageOrigin, Clash]

theorem Clash.pure {a b : UsageOrigin} (h : Clash a b) : Pure a :=
  h.imp And.left And.left

theorem Forgotten.bare (h : Forgotten us) : ∀ u ∈ us, Bare u := by
  induction h with
  | nil => exact fun u hu => nomatch hu
  | unknown hus hu _ =>
    intro w hw
    rcases List.mem_append.mp hw with hw | hw
    · exact hus w hw
    · rwa [List.mem_singleton.mp hw]
  | clash _ _ hws hu _ ih =>
    intro w hw
    rcases List.mem_append.mp hw with hw | hw
    · rcases List.mem_append.mp hw with hw | hw
      · exact ih w hw
      · exact (hws w hw).1
    · rwa [List.mem_singleton.mp hw]

theorem origin_sumUsage_append {o : UsageOrigin} (ho : Pure o)
    (hpre : (sumUsage pre).isEmpty = true) (hne : post ≠ []) (hpost : ∀ u ∈ post, u.origin = o) :
    (sumUsage (pre ++ post)).origin = o := by
  induction post using List.reverseRecOn with
  | nil => exact absurd rfl hne
  | append_singleton post u ih =>
    have hu : u.origin = o := hpost u (by simp)
    rw [← List.append_assoc, sumUsage_concat]
    cases hempty : (sumUsage (pre ++ post)).isEmpty with
    | true => rw [addUsage_of_isEmpty hempty, hu]
    | false =>
      have hpost_ne : post ≠ [] := by
        rintro rfl
        rw [List.append_nil, hpre] at hempty
        cases hempty
      rw [origin_addUsage hempty, combinedUsageOrigin_eq_pure ho]
      exact ⟨ih hpost_ne fun w hw => hpost w (List.mem_append_left _ hw), hu⟩

/-- **Forgotten reports leave an empty total.** -/
theorem Forgotten.isEmpty (h : Forgotten us) : (sumUsage us).isEmpty = true := by
  have hbare := bare_sumUsage.mpr h.bare
  refine isEmpty_iff.mpr ⟨hbare, ?_⟩
  induction h with
  | nil => rfl
  | @unknown us u _ _ hunknown =>
    rw [sumUsage_concat]
    cases hempty : (sumUsage us).isEmpty with
    | true => rw [addUsage_of_isEmpty hempty, hunknown]
    | false => rw [origin_addUsage hempty, combinedUsageOrigin_eq_unknown, hunknown]; simp
  | @clash us ws u o hus hne hws _ hclash ih =>
    have hempty : (sumUsage us).isEmpty = true :=
      isEmpty_iff.mpr ⟨bare_sumUsage.mpr hus.bare, ih (bare_sumUsage.mpr hus.bare)⟩
    have horigin := origin_sumUsage_append hclash.pure hempty hne fun w hw => (hws w hw).2
    have hfull : (sumUsage (us ++ ws)).isEmpty = false := by
      rw [← Bool.not_eq_true, isEmpty_iff, horigin]
      rintro ⟨-, rfl⟩
      rcases hclash.pure with h | h <;> cases h
    rw [sumUsage_concat, origin_addUsage hfull, combinedUsageOrigin_eq_unknown, horigin]
    exact .inr (.inr hclash)

/-- **A total of a pure origin** has it from all reports after forgotten ones; and a
total that is empty has forgotten all of them. -/
theorem forgotten_of_isEmpty (us : List Usage) :
    ((sumUsage us).isEmpty = true → Forgotten us) ∧
      ∀ o, Pure o → (sumUsage us).origin = o → ∃ pre post, us = pre ++ post ∧ Forgotten pre
        ∧ post ≠ [] ∧ ∀ u ∈ post, u.origin = o := by
  induction us using List.reverseRecOn with
  | nil =>
    refine ⟨fun _ => .nil, fun o ho horigin => ?_⟩
    cases horigin
    rcases ho with h | h <;> cases h
  | append_singleton us u ih =>
    rw [sumUsage_concat]
    cases hempty : (sumUsage us).isEmpty with
    | true =>
      have hus := ih.1 hempty
      rw [addUsage_of_isEmpty hempty]
      refine ⟨fun hu => ?_, fun o _ horigin =>
        ⟨us, [u], rfl, hus, List.cons_ne_nil _ _, fun w hw => by rwa [List.mem_singleton.mp hw]⟩⟩
      obtain ⟨hbare, hunknown⟩ := isEmpty_iff.mp hu
      exact .unknown hus.bare hbare hunknown
    | false =>
      rw [origin_addUsage hempty]
      constructor
      · intro hu
        obtain ⟨hbare, hunknown⟩ := isEmpty_iff.mp hu
        obtain ⟨htotal, hreport⟩ := bare_addUsage.mp hbare
        rw [origin_addUsage hempty, combinedUsageOrigin_eq_unknown] at hunknown
        rcases hunknown with hzero | hunknown | hclash
        · rw [isEmpty_iff.mpr ⟨htotal, hzero⟩] at hempty
          cases hempty
        · exact .unknown (bare_sumUsage.mp htotal) hreport hunknown
        · obtain ⟨pre, post, rfl, hpre, hne, hpost⟩ := ih.2 _ hclash.pure rfl
          have hall := bare_sumUsage.mp htotal
          exact .clash hpre hne (fun w hw => ⟨hall w (List.mem_append_right _ hw), hpost w hw⟩)
            hreport hclash
      · intro o ho horigin
        obtain ⟨htotal, hu⟩ := (combinedUsageOrigin_eq_pure ho).mp horigin
        obtain ⟨pre, post, rfl, hpre, hne, hpost⟩ := ih.2 o ho htotal
        refine ⟨pre, post ++ [u], List.append_assoc .., hpre, by simp, fun w hw => ?_⟩
        rcases List.mem_append.mp hw with hw | hw
        · exact hpost w hw
        · rwa [List.mem_singleton.mp hw]

theorem isEmpty_iff_forgotten : (sumUsage us).isEmpty = true ↔ Forgotten us :=
  ⟨(forgotten_of_isEmpty us).1, Forgotten.isEmpty⟩

/-- **The total is the provider's** exactly where all reports after forgotten ones are. -/
theorem origin_sumUsage_iff : (sumUsage us).origin = .providerReported ↔
    ∃ pre post, us = pre ++ post ∧ Forgotten pre ∧ post ≠ []
      ∧ ∀ u ∈ post, u.origin = .providerReported := by
  constructor
  · exact (forgotten_of_isEmpty us).2 _ (.inl rfl)
  · rintro ⟨pre, post, rfl, hpre, hne, hpost⟩
    exact origin_sumUsage_append (.inl rfl) hpre.isEmpty hne hpost

/-! ## Payloads -/

theorem payloads_append (us ws : List Usage) :
    payloads (us ++ ws) = payloads us ++ payloads ws := List.filterMap_append

theorem payloads_of_bare (h : ∀ u ∈ us, Bare u) : payloads us = [] :=
  List.filterMap_eq_nil_iff.mpr fun u hu => (h u hu).2.2.2.2.2.2

/-- A payload is no fragment of itself. -/
theorem fragmentsOf_ne_self : fragmentsOf v ≠ some [v] := by
  intro h
  obtain ⟨w, hw, hitems⟩ := Option.bind_eq_some_iff.mp h
  rw [Value.eq_array_of_asArray hitems] at hw
  cases v with
  | object fields =>
    have hmem := IndexMap.mem_of_get_eq_some hw
    have hlt := List.sizeOf_lt_of_mem hmem
    simp only [Prod.mk.sizeOf_spec, Value.array.sizeOf_spec, Value.object.sizeOf_spec,
      List.cons.sizeOf_spec] at hlt
    omega
  | _ => cases hw

theorem raw_sumUsage_of_nil (h : payloads us = []) : (sumUsage us).raw = none := by
  induction us using List.reverseRecOn with
  | nil => rfl
  | append_singleton us u ih =>
    rw [payloads_append, List.append_eq_nil_iff] at h
    have hu : u.raw = none := List.filterMap_eq_nil_iff.mp h.2 u List.mem_cons_self
    rw [sumUsage_concat]
    cases hempty : (sumUsage us).isEmpty with
    | true => rw [addUsage_of_isEmpty hempty, hu]
    | false => rw [raw_addUsage hempty, ih h.1, hu]; rfl

/-- What the first payload has become when others follow it. -/
def opened (kept : Prop) [Decidable kept] (v : Value) : List Value :=
  if kept then (fragmentsOf v).getD [v] else [v]

/-- **The payload of a total**: the first one as it is, while it is alone and was
added to an empty total; with others it is opened and they are appended to it. -/
theorem raw_sumUsage (hpre : payloads pre = []) (hu : u.raw = some v) :
    (sumUsage (pre ++ u :: post)).raw =
      if (sumUsage pre).isEmpty = true ∧ payloads post = [] then some v
      else some (wrap (opened ((sumUsage pre).isEmpty = true) v ++ payloads post)) := by
  induction post using List.reverseRecOn with
  | nil =>
    rw [sumUsage_concat]
    cases hempty : (sumUsage pre).isEmpty with
    | true => rw [addUsage_of_isEmpty hempty, hu, if_pos ⟨rfl, rfl⟩]
    | false =>
      rw [raw_addUsage hempty, raw_sumUsage_of_nil hpre, hu, if_neg fun h => by cases h.1]
      rfl
  | append_singleton post w ih =>
    have hfull : (sumUsage (pre ++ u :: post)).isEmpty = false := by
      rw [← Bool.not_eq_true, isEmpty_iff]
      rintro ⟨⟨-, -, -, -, -, -, hnone⟩, -⟩
      rw [ih] at hnone
      split at hnone <;> cases hnone
    have happend : pre ++ u :: (post ++ [w]) = (pre ++ u :: post) ++ [w] := by simp
    rw [happend, sumUsage_concat, raw_addUsage hfull, ih, payloads_append]
    cases hw : w.raw with
    | none =>
      have hnil : payloads [w] = [] := List.filterMap_eq_nil_iff.mpr (by simpa using hw)
      rw [hnil, List.append_nil]
      rfl
    | some x =>
      have hone : payloads [w] = [x] := by simp [payloads, hw]
      rw [hone]
      have hne : ¬ ((sumUsage pre).isEmpty = true ∧ payloads post ++ [x] = []) := by simp
      split
      · next hkept =>
        rw [hkept.2, opened, if_pos hkept.1]
        rfl
      · rw [← List.append_assoc]
        rfl

theorem carries_wrap {fragments ps : List Value} (hlong : 2 ≤ ps.length) :
    Carries ps (some (wrap fragments)) ↔ fragments = ps := by
  constructor
  · rintro (⟨rfl, -⟩ | ⟨v, rfl, -⟩ | ⟨-, hwrap⟩)
    · simp at hlong
    · simp at hlong
    · have heq := Option.some.inj hwrap
      have hsome := congrArg fragmentsOf heq
      exact Option.some.inj hsome
  · rintro rfl
    exact .inr (.inr ⟨by rintro rfl; simp at hlong, rfl⟩)

theorem first_payload_unique {pre' post' : List Usage} {u' : Usage}
    (h : pre ++ u :: post = pre' ++ u' :: post') (hpre : payloads pre = [])
    (hpre' : payloads pre' = []) (hu : u.raw.isSome = true) (hu' : u'.raw.isSome = true) :
    pre = pre' ∧ u = u' ∧ post = post' := by
  have hnone {us : List Usage} (hus : payloads us = []) {w : Usage} (hw : w ∈ us) :
      ¬ w.raw.isSome = true := by
    rw [List.filterMap_eq_nil_iff.mp hus w hw]
    exact Bool.false_ne_true
  rcases List.append_eq_append_iff.mp h with ⟨t, rfl, ht⟩ | ⟨t, rfl, ht⟩
  · cases t with
    | nil =>
      obtain ⟨rfl, rfl⟩ := List.cons.inj ht
      exact ⟨(List.append_nil _).symm, rfl, rfl⟩
    | cons w t =>
      obtain ⟨rfl, -⟩ := List.cons.inj ht
      exact absurd hu (hnone hpre' (by simp))
  · cases t with
    | nil =>
      obtain ⟨rfl, rfl⟩ := List.cons.inj ht
      exact ⟨List.append_nil _, rfl, rfl⟩
    | cons w t =>
      obtain ⟨rfl, -⟩ := List.cons.inj ht
      exact absurd hu' (hnone hpre (by simp))

/-- A first payload is kept among others unless it is opened. -/
theorem opened_eq_iff {kept : Prop} [Decidable kept] :
    opened kept v = [v] ↔ ¬ (kept ∧ (fragmentsOf v).isSome = true) := by
  unfold opened
  split
  · next hkept =>
    cases hfragments : fragmentsOf v with
    | none => simp
    | some fragments =>
      have hne : fragments ≠ [v] := by
        rintro rfl
        exact fragmentsOf_ne_self hfragments
      simp [hkept, hne]
  · next hkept => simp [hkept]

/-- **When the payloads are carried**: the first one is kept as it is, unless it is
read as fragments itself and others follow. -/
theorem carries_iff (us : List Usage) : Carries (payloads us) (sumUsage us).raw ↔
    ∀ pre u post, us = pre ++ u :: post → Forgotten pre →
      (u.raw.bind fragmentsOf).isSome = true → payloads post = [] := by
  have hpayload {u : Usage} (h : (u.raw.bind fragmentsOf).isSome = true) :
      ∃ v, u.raw = some v ∧ (fragmentsOf v).isSome = true := by
    cases hu : u.raw with
    | none =>
      rw [hu] at h
      cases h
    | some v => exact ⟨v, rfl, by rwa [hu] at h⟩
  cases hall : payloads us with
  | nil =>
    refine iff_of_true (.inl ⟨rfl, raw_sumUsage_of_nil hall⟩) ?_
    rintro pre u post rfl - -
    rw [payloads_append, List.append_eq_nil_iff] at hall
    exact (List.append_eq_nil_iff.mp ((payloads_append [u] post).symm.trans hall.2)).2
  | cons v rest =>
    obtain ⟨pre, u, post, rfl, hpre, hu, rfl⟩ := List.filterMap_eq_cons_iff.mp hall
    have hpre : payloads pre = [] := List.filterMap_eq_nil_iff.mpr hpre
    show Carries (v :: payloads post) _ ↔ _
    rw [raw_sumUsage hpre hu]
    -- The one split at a payload that forgotten reports come before.
    have hsplit {pre' post' : List Usage} {u' : Usage}
        (h : pre ++ u :: post = pre' ++ u' :: post') (hpre' : Forgotten pre')
        (hu' : (u'.raw.bind fragmentsOf).isSome = true) : pre = pre' ∧ u = u' ∧ post = post' := by
      obtain ⟨v', hv', -⟩ := hpayload hu'
      exact first_payload_unique h hpre (payloads_of_bare hpre'.bare) (by rw [hu]; rfl)
        (by rw [hv']; rfl)
    by_cases hpost : payloads post = []
    · refine iff_of_true ?_ fun pre' u' post' h hpre' hu' => ?_
      · rw [hpost]
        split
        · exact .inr (.inl ⟨v, rfl, rfl⟩)
        · next hkept =>
          have hopened : opened ((sumUsage pre).isEmpty = true) v = [v] :=
            opened_eq_iff.mpr fun h => hkept ⟨h.1, rfl⟩
          rw [hopened]
          exact .inr (.inr ⟨List.cons_ne_nil _ _, rfl⟩)
      · obtain ⟨rfl, rfl, rfl⟩ := hsplit h hpre' hu'
        exact hpost
    · have hlong : 2 ≤ (v :: payloads post).length := by
        have := List.length_pos_iff.mpr hpost
        rw [List.length_cons]
        omega
      rw [if_neg fun h => hpost h.2, carries_wrap hlong, ← List.singleton_append,
        List.append_left_inj, opened_eq_iff, isEmpty_iff_forgotten]
      constructor
      · intro hkept pre' u' post' h hpre' hu'
        obtain ⟨rfl, rfl, rfl⟩ := hsplit h hpre' hu'
        exact absurd ⟨hpre', by rwa [hu] at hu'⟩ hkept
      · rintro h ⟨hforgotten, hfragments⟩
        exact hpost (h pre u post rfl hforgotten (by rwa [hu]))

/-! ## The aggregate -/

/-- **When the total tells what was reported.** -/
theorem faithful_sumUsage_iff (reports : List (Option Usage)) :
    Faithful reports (sumUsage (reported reports)) ↔ Covered reports := by
  have hsums {counter : Usage → UInt64}
      (hadd : ∀ total u, counter (addUsage total u) = saturatingAdd (counter total) (counter u))
      (hempty : counter {} = 0) := sumsTo_sumUsage hadd hempty (reported reports)
  constructor
  · intro h
    refine ⟨fun pre post hsplit hpre hne hpost => ?_, ?_⟩
    · have horigin := h.origin (origin_sumUsage_iff.mpr ⟨pre, post, hsplit, hpre, hne, hpost⟩)
      refine ⟨fun hnone => ?_, fun u hu => ?_⟩
      · obtain ⟨u, hu, -⟩ := horigin none hnone
        cases hu
      · have hmem : u ∈ reported reports := hsplit ▸ List.mem_append_left _ hu
        obtain ⟨r, hr, rfl⟩ := List.mem_filterMap.mp hmem
        obtain ⟨w, hw, hreported⟩ := horigin _ hr
        obtain rfl := Option.some.inj hw
        exact hreported
    · exact (carries_iff _).mp h.payloads
  · intro h
    refine ⟨hsums (fun _ _ => rfl) rfl, hsums (fun _ _ => rfl) rfl, hsums (fun _ _ => rfl) rfl,
      hsums (fun _ _ => rfl) rfl, hsums (fun _ _ => rfl) rfl, hsums (fun _ _ => rfl) rfl,
      (carries_iff _).mpr h.payload, fun horigin r hr => ?_⟩
    obtain ⟨pre, post, hsplit, hpre, hne, hpost⟩ := origin_sumUsage_iff.mp horigin
    obtain ⟨hsome, hforgotten⟩ := h.origin pre post hsplit hpre hne hpost
    cases r with
    | none => exact absurd hr hsome
    | some u =>
      have hmem : u ∈ reported reports := List.mem_filterMap.mpr ⟨some u, hr, rfl⟩
      rw [hsplit] at hmem
      rcases List.mem_append.mp hmem with hu | hu
      · exact ⟨u, rfl, hforgotten u hu⟩
      · exact ⟨u, rfl, hpost u hu⟩

/-! ## The usage of a run -/

/-- What a run returns of the reports of its turns. -/
def aggregate (us : List Usage) : Option Usage := if us.isEmpty then none else some (sumUsage us)

/-- The state of a loop that has seen some reports. -/
structure LoopState.Observed (s : LoopState) (us : List Usage) : Prop where
  total : s.total = sumUsage us
  hadUsage : s.hadUsage = !us.isEmpty

theorem LoopState.Observed.observe {s : LoopState} (h : s.Observed us) (r : Option Usage) :
    (s.observe r).Observed (us ++ reported [r]) := by
  cases r with
  | none =>
    show s.Observed (us ++ [])
    rwa [List.append_nil]
  | some u =>
    refine ⟨?_, by simp [LoopState.observe, reported]⟩
    show addUsage s.total u = sumUsage (us ++ [u])
    rw [h.total, sumUsage_concat]

/-- A reply carries the aggregate of all reports, its own being the last. -/
theorem LoopState.Observed.withUsage {s : LoopState} (h : s.Observed us) (g : GenerateResult) :
    ((s.observe g.usage).withUsage g).usage = aggregate (us ++ reported [g.usage]) := by
  have hobserved := h.observe g.usage
  unfold LoopState.withUsage aggregate
  rw [hobserved.hadUsage, hobserved.total]
  cases hempty : (us ++ reported [g.usage]).isEmpty with
  | true =>
    -- Nothing was reported, nor does this reply report anything.
    show g.usage = none
    cases husage : g.usage with
    | none => rfl
    | some u =>
      rw [husage] at hempty
      simp [reported] at hempty
  | false => rfl

namespace ServerToolLoop

variable {l : ServerToolLoop} {owned : List String} {elapsed : ℕ → ℕ}

theorem turn_usage (l : ServerToolLoop) (owned : List String) (elapsed : ℕ → ℕ) {s : LoopState}
    (hs : s.Observed us) (g : GenerateResult) :
    match l.turn owned elapsed s g with
    | (_, .again s') => s'.Observed (us ++ reported [g.usage])
    | (_, .stop o) => o.result.usage = aggregate (us ++ reported [g.usage]) := by
  have hreply := hs.withUsage g
  have hobserved := hs.observe g.usage
  cases hclass : classifyTurn g.content owned with
  | done =>
    rw [turn_done hclass]
    exact hreply
  | handBack =>
    rw [turn_handBack hclass]
    exact hreply
  | execute calls =>
    by_cases hbound : l.AtBound elapsed (s.observe g.usage).rounds
    · rw [turn_bound hclass hbound]
      exact hreply
    · rw [turn_execute hclass hbound]
      by_cases herrors : l.config.maxConsecutiveErrors
          ≤ (l.afterCalls (s.observe g.usage) g.content calls).consecutiveErrors
      · rw [if_pos herrors]
        exact hreply
      · rw [if_neg herrors]
        exact ⟨hobserved.total, hobserved.hadUsage⟩

/-- **What a run returns**: the aggregate of what its turns report. -/
theorem runLoop_usage {s : LoopState} (hs : s.Observed us)
    {script : List (Except BitrouterError PipelineOutput)} {o : ServerToolLoopOutcome}
    (h : (l.runLoop owned elapsed s script).result = .ok o) :
    ∃ gs : List GenerateResult, gs.map (fun g => .ok (.generation g)) <+: script
      ∧ (l.runLoop owned elapsed s script).turns.map Prod.fst = gs.map GenerateResult.content
      ∧ o.result.usage = aggregate (us ++ reported (gs.map GenerateResult.usage)) := by
  induction script generalizing s us with
  | nil => cases h
  | cons answer script ih =>
    match answer with
    | .error e => cases h
    | .ok .decisions => cases h
    | .ok (.generation g) =>
      rw [runLoop] at h ⊢
      have hstep := turn_usage l owned elapsed hs g
      cases hturn : l.turn owned elapsed s g with
      | mk d step =>
        rw [hturn] at h hstep
        cases step with
        | stop outcome =>
          obtain rfl := Except.ok.inj h
          exact ⟨[g], by simp, rfl, hstep⟩
        | again s' =>
          obtain ⟨gs, hinitial, hcontent, husage⟩ := ih hstep h
          refine ⟨g :: gs, by simpa using hinitial, by simp [hcontent], ?_⟩
          rw [husage, List.append_assoc]
          show aggregate (us ++ (reported [g.usage] ++ _)) = _
          rw [reported, reported, ← List.filterMap_append]
          rfl

/-- **When a run tells its usage.** The turns of a run that returns are the answers
of its upstream. The run returns no usage where no turn reports any; otherwise it
returns one aggregate, whose counters, payloads and origin tell what all turns
reported if and only if nothing that matters is forgotten or left out. -/
theorem run_aggregate_iff (l : ServerToolLoop) (elapsed : ℕ → ℕ) (base : Prompt)
    (script : List (Except BitrouterError PipelineOutput)) {o : ServerToolLoopOutcome}
    (h : (l.runWithProvenance elapsed base script).result = .ok o) :
    ∃ gs : List GenerateResult, gs.map (fun g => .ok (.generation g)) <+: script
      ∧ (l.runWithProvenance elapsed base script).turns.map Prod.fst
        = gs.map GenerateResult.content
      ∧ (o.result.usage = none ↔ ∀ g ∈ gs, g.usage = none)
      ∧ ∀ total, o.result.usage = some total →
        (Faithful (gs.map GenerateResult.usage) total ↔ Covered (gs.map GenerateResult.usage)) := by
  unfold runWithProvenance at h ⊢
  cases hinject : l.inject base with
  | error e =>
    rw [hinject] at h
    cases h
  | ok injected =>
    obtain ⟨working, owned⟩ := injected
    rw [hinject] at h
    have hstart : ({ working := working } : LoopState).Observed [] := ⟨rfl, rfl⟩
    obtain ⟨gs, hinitial, hcontent, husage⟩ := runLoop_usage hstart h
    rw [List.nil_append] at husage
    have hnone : reported (gs.map GenerateResult.usage) = [] ↔ ∀ g ∈ gs, g.usage = none := by
      rw [reported, List.filterMap_eq_nil_iff, List.forall_mem_map]
      exact Iff.rfl
    refine ⟨gs, hinitial, hcontent, ?_, fun total htotal => ?_⟩
    · rw [husage, aggregate, ← hnone, ← List.isEmpty_iff]
      split <;> simp [*]
    · rw [husage, aggregate] at htotal
      split at htotal
      · cases htotal
      · obtain rfl := Option.some.inj htotal
        exact faithful_sumUsage_iff _

/-! ### A turn that reports nothing -/

/-- A turn with a search, and the answer after it. -/
def reportingSearch (usage : Option Usage) : PipelineOutput :=
  .generation { content := [.toolCall "c1" "search" "{}" false false []], usage }

def reportingAnswer (usage : Option Usage) : PipelineOutput := .generation { content := [], usage }

def tenTokens : Usage := { promptTokens := 10, origin := .providerReported }

/-- **A silent turn does not show.** The first turn of the run reports no usage, and
the aggregate is the provider's all the same. -/
theorem silent_turn_hidden :
    ∃ o, (searchLoop.runWithProvenance (fun _ => 0) {}
        [.ok (reportingSearch none), .ok (reportingAnswer (some tenTokens))]).result = .ok o
      ∧ o.result.usage = some tenTokens
      ∧ ¬ Faithful [none, some tenTokens] tenTokens := by
  refine ⟨_, rfl, rfl, fun h => ?_⟩
  obtain ⟨u, hu, -⟩ := h.origin rfl none List.mem_cons_self
  cases hu

/-- Two turns that both report. -/
theorem run_aggregate_twoTurns :
    ∃ o, (searchLoop.runWithProvenance (fun _ => 0) {}
        [.ok (reportingSearch (some tenTokens)),
          .ok (reportingAnswer (some tenTokens))]).result = .ok o
      ∧ ∃ gs : List GenerateResult,
        gs.map (fun g => .ok (.generation g)) <+: [.ok (reportingSearch (some tenTokens)),
          (.ok (reportingAnswer (some tenTokens)) : Except BitrouterError PipelineOutput)]
        ∧ ∀ total, o.result.usage = some total →
          (Faithful (gs.map GenerateResult.usage) total
            ↔ Covered (gs.map GenerateResult.usage)) := by
  refine ⟨_, rfl, ?_⟩
  obtain ⟨gs, hinitial, -, -, htotal⟩ := run_aggregate_iff searchLoop (fun _ => 0) {}
    [.ok (reportingSearch (some tenTokens)), .ok (reportingAnswer (some tenTokens))] rfl
  exact ⟨gs, hinitial, htotal⟩

end ServerToolLoop

end BitRouter.ServerTools
