import BitRouter.Registry.TypedEqual
import Mathlib.Data.List.Perm.Basic

/-!
# The order of a listing

`normalize` reads its rows one after another: it counts them against two
budgets, and compares a row that repeats a native identity with the row kept
for it, the first. Which row is the first depends on the order of the rows and
on how they are split into pages; what is accepted, and what the observation
holds up to typed equality, do not (`normalize_order`).

A row is judged by itself (`judge`), the budgets bound sums, and typed equality
is symmetric and transitive, so that a row agrees with the first of its identity
exactly where it agrees with all of them (`normalize_eq_ok`).
-/

namespace BitRouter.Registry

namespace Mapping

/-! ## Composed rows -/

section Composed

variable {feed item input : Value} {authority : List String} {row row' : Row}

theorem wellFormed_writeStep {target : String} (hfeed : feed.wellFormed = true)
    (hinput : input.wellFormed = true) (hrow : row.1.wellFormed = true)
    (h : writeStep feed["response"] input row target = .ok row') : row'.1.wellFormed = true := by
  obtain ⟨output, htransform, h⟩ := bind_eq_ok.mp h
  obtain ⟨_, -, h⟩ := bind_eq_ok.mp h
  obtain ⟨_, -, h⟩ := bind_eq_ok.mp h
  obtain ⟨value, hwrite, h⟩ := bind_eq_ok.mp h
  obtain rfl := pure_eq_ok.mp h
  obtain ⟨path, -, hwrite⟩ := bind_eq_ok.mp hwrite
  obtain ⟨_, -, hwrite⟩ := bind_eq_ok.mp hwrite
  refine wellFormed_writeParts hrow (wellFormed_transformed hinput (fun v hv => ?_) htransform)
    hwrite
  obtain ⟨transforms, htransforms, hv⟩ := Option.bind_eq_some_iff.mp hv
  exact Value.wellFormed_of_get
    (Value.wellFormed_of_get (Value.wellFormed_getElem hfeed "response") htransforms) hv

theorem wellFormed_composeRow (hfeed : feed.wellFormed = true) (hitem : item.wellFormed = true)
    (h : composeRow authority feed["response"] item = .ok row) : row.1.wellFormed = true := by
  obtain ⟨composed, hfold, h⟩ := bind_eq_ok.mp h
  obtain ⟨_, -, h⟩ := bind_eq_ok.mp h
  obtain rfl := pure_eq_ok.mp h
  refine foldlM_ok_preserves (P := fun r : Row => r.1.wellFormed = true) ?_ ?_ hfold
  · intro r entry r' _ hr hstep
    obtain ⟨found, hread, hstep⟩ := bind_eq_ok.mp hstep
    cases found with
    | none => exact pure_eq_ok.mp hstep ▸ hr
    | some input =>
      obtain ⟨paths, -, hstep⟩ := bind_eq_ok.mp hstep
      obtain ⟨ts, -, hread⟩ := bind_eq_ok.mp hread
      exact foldlM_ok_preserves (P := fun r : Row => r.1.wellFormed = true)
        (fun _ _ _ _ hr hwrite =>
          wellFormed_writeStep hfeed (wellFormed_readTokens hitem hread) hr hwrite) hr hstep
  · -- The row starts as the reviewed defaults.
    show ((feed["response"].get "defaults").getD (.object [])).wellFormed = true
    cases hdefaults : feed["response"].get "defaults" with
    | none => rfl
    | some v => exact Value.wellFormed_of_get (Value.wellFormed_getElem hfeed "response") hdefaults

end Composed

/-! ## Rows by themselves -/

variable (fromValue : Value → Except RegistryError Unit)

/-- A row that is kept, and what it counts against the budgets. -/
structure Kept where
  bytes : ℕ
  nodes : ℕ
  native : String
  model : ObservedModel

/-- **The judgement of one row**, whatever other rows there are: it is refused, left
out by the filter, or kept. -/
def judge (authority : List String) (response item : Value) :
    Except RegistryError (Option Kept) := do
  ensure item.isObject (invalid "Model listing item must be an object")
  if ← filterRow response item then
    let row ← composeRow authority response item
    let (native, model) ← checkRow fromValue authority row
    return some { bytes := row.1.render.utf8ByteSize, nodes := nodes row.1, native, model }
  else return none

/-- Rows that a repeated identity may have: equal by type, and with the same fields
observed. -/
def Agree (a b : ObservedModel) : Prop :=
  typedEqual a.value b.value = true ∧ a.observed = b.observed

instance (a b : ObservedModel) : Decidable (Agree a b) := inferInstanceAs (Decidable (_ ∧ _))

/-- Whether a listing takes one more row. -/
def Listing.Takes (s : Listing) : Option Kept → Prop
  | none => True
  | some k => s.totalBytes + k.bytes ≤ maxDocumentBytes ∧ s.totalNodes + k.nodes ≤ maxDocumentNodes
      ∧ ∀ previous, IndexMap.get s.models k.native = some previous → Agree previous k.model

/-- A listing with one more row. -/
def Listing.add (s : Listing) : Option Kept → Listing
  | none => { s with excluded := s.excluded + 1 }
  | some k => { s with
      models := match IndexMap.get s.models k.native with
        | some _ => s.models
        | none => IndexMap.insert s.models k.native k.model
      totalBytes := s.totalBytes + k.bytes
      totalNodes := s.totalNodes + k.nodes }

section Judge

variable {fromValue} {feed item response : Value} {authority : List String} {s s' : Listing}

/-- **One row of a page** is judged, and the listing takes it. -/
theorem itemStep_eq_ok : itemStep fromValue authority response s item = .ok s' ↔
    ∃ k, judge fromValue authority response item = .ok k ∧ s.Takes k ∧ s' = s.add k := by
  constructor
  · intro h
    obtain ⟨_, hobject, h⟩ := bind_eq_ok.mp h
    obtain ⟨kept, hfilter, h⟩ := bind_eq_ok.mp h
    cases kept with
    | false =>
      exact ⟨none, bind_eq_ok.mpr ⟨_, hobject, bind_eq_ok.mpr ⟨false, hfilter, rfl⟩⟩, trivial,
        (pure_eq_ok.mp h).symm⟩
    | true =>
      obtain ⟨row, hrow, h⟩ := bind_eq_ok.mp h
      obtain ⟨_, hbytes, h⟩ := bind_eq_ok.mp h
      obtain ⟨_, hnodes, h⟩ := bind_eq_ok.mp h
      obtain ⟨⟨native, model⟩, hcheck, h⟩ := bind_eq_ok.mp h
      refine ⟨some ⟨_, _, native, model⟩, bind_eq_ok.mpr ⟨_, hobject, bind_eq_ok.mpr ⟨true, hfilter,
        bind_eq_ok.mpr ⟨row, hrow, bind_eq_ok.mpr ⟨_, hcheck, rfl⟩⟩⟩⟩,
        ⟨ensure_eq_ok.mp hbytes, ensure_eq_ok.mp hnodes, fun previous hprevious => ?_⟩, ?_⟩
      · dsimp only at h hprevious
        rw [hprevious] at h
        obtain ⟨_, hagree, -⟩ := bind_eq_ok.mp h
        exact ensure_eq_ok.mp hagree
      · unfold Listing.add
        dsimp only at h ⊢
        cases hget : IndexMap.get s.models native with
        | none =>
          rw [hget] at h
          exact (pure_eq_ok.mp h).symm
        | some previous =>
          rw [hget] at h
          obtain ⟨_, -, h⟩ := bind_eq_ok.mp h
          exact (pure_eq_ok.mp h).symm
  · rintro ⟨k, hk, htakes, rfl⟩
    obtain ⟨_, hobject, hk⟩ := bind_eq_ok.mp hk
    obtain ⟨kept, hfilter, hk⟩ := bind_eq_ok.mp hk
    refine bind_eq_ok.mpr ⟨_, hobject, bind_eq_ok.mpr ⟨kept, hfilter, ?_⟩⟩
    cases kept with
    | false =>
      obtain rfl := pure_eq_ok.mp hk
      rfl
    | true =>
      obtain ⟨row, hrow, hk⟩ := bind_eq_ok.mp hk
      obtain ⟨⟨native, model⟩, hcheck, hk⟩ := bind_eq_ok.mp hk
      obtain rfl := pure_eq_ok.mp hk
      obtain ⟨hbytes, hnodes, hagree⟩ := htakes
      refine bind_eq_ok.mpr ⟨row, hrow, bind_eq_ok.mpr ⟨(), ensure_eq_ok.mpr hbytes,
        bind_eq_ok.mpr ⟨(), ensure_eq_ok.mpr hnodes, bind_eq_ok.mpr ⟨_, hcheck, ?_⟩⟩⟩⟩
      unfold Listing.add
      dsimp only at hagree ⊢
      cases hget : IndexMap.get s.models native with
      | none => rfl
      | some previous => exact bind_eq_ok.mpr ⟨(), ensure_eq_ok.mpr (hagree previous hget), rfl⟩

/-- A kept row is what the checks have left of an item. -/
structure Kept.Sound (k : Kept) : Prop where
  wellFormed : k.model.value.wellFormed = true
  readable : readable k.model.value = true
  native : k.model.value["provider_model_id"].asStr = some k.native

theorem sound_of_judge (hnumbers : NumbersRead fromValue) (hfeed : feed.wellFormed = true)
    (hitem : item.wellFormed = true) {k : Kept}
    (h : judge fromValue authority feed["response"] item = .ok (some k)) : k.Sound := by
  obtain ⟨_, -, h⟩ := bind_eq_ok.mp h
  obtain ⟨kept, -, h⟩ := bind_eq_ok.mp h
  cases kept with
  | false => cases pure_eq_ok.mp h
  | true =>
    obtain ⟨row, hrow, h⟩ := bind_eq_ok.mp h
    obtain ⟨⟨native, model⟩, hcheck, h⟩ := bind_eq_ok.mp h
    obtain rfl := Option.some.inj (pure_eq_ok.mp h)
    obtain ⟨found, hfound, hcheck⟩ := bind_eq_ok.mp hcheck
    obtain ⟨_, -, hcheck⟩ := bind_eq_ok.mp hcheck
    obtain ⟨_, -, hcheck⟩ := bind_eq_ok.mp hcheck
    obtain ⟨observed, -, hcheck⟩ := bind_eq_ok.mp hcheck
    obtain ⟨_, hadmit, hcheck⟩ := bind_eq_ok.mp hcheck
    obtain ⟨rfl, rfl⟩ := Prod.mk.inj (pure_eq_ok.mp hcheck)
    exact ⟨wellFormed_composeRow hfeed hitem hrow, readable_of_admitRow hnumbers hadmit,
      (Option.filter_eq_some_iff.mp (orFail_eq_ok.mp hfound)).1⟩

end Judge

theorem Agree.self {k : Kept} (h : k.Sound) : Agree k.model k.model :=
  ⟨typedEqual_self h.wellFormed h.readable, rfl⟩

theorem Agree.symm {a b : Kept} (ha : a.Sound) (hb : b.Sound) (h : Agree a.model b.model) :
    Agree b.model a.model :=
  ⟨typedEqual_symm ha.wellFormed hb.wellFormed h.1, h.2.symm⟩

theorem Agree.trans {a b c : Kept} (ha : a.Sound) (hb : b.Sound) (hc : c.Sound)
    (h : Agree a.model b.model) (h' : Agree b.model c.model) : Agree a.model c.model :=
  ⟨typedEqual_trans ha.wellFormed hb.wellFormed hc.wellFormed h.1 h'.1, h.2.trans h'.2⟩

/-! ## Rows together -/

/-- The listing of judged rows. -/
def gather (ks : List (Option Kept)) : Listing := ks.foldl Listing.add {}

def keptRows (ks : List (Option Kept)) : List Kept := ks.filterMap id

/-- **Rows that repeat an identity agree**, each with each. -/
def RepeatsAgree (ks : List (Option Kept)) : Prop :=
  (keptRows ks).Pairwise fun a b => a.native = b.native → Agree a.model b.model

def WithinBudgets (ks : List (Option Kept)) : Prop :=
  ((keptRows ks).map Kept.bytes).sum ≤ maxDocumentBytes
    ∧ ((keptRows ks).map Kept.nodes).sum ≤ maxDocumentNodes

section Gather

variable {ks : List (Option Kept)} {k : Option Kept}

@[simp] theorem gather_concat (ks : List (Option Kept)) (k : Option Kept) :
    gather (ks ++ [k]) = (gather ks).add k := List.foldl_concat ..

theorem keptRows_concat (ks : List (Option Kept)) (k : Option Kept) :
    keptRows (ks ++ [k]) = keptRows ks ++ k.toList := by
  unfold keptRows
  rw [List.filterMap_append]
  cases k <;> rfl

theorem gather_totals (ks : List (Option Kept)) :
    (gather ks).totalBytes = ((keptRows ks).map Kept.bytes).sum
      ∧ (gather ks).totalNodes = ((keptRows ks).map Kept.nodes).sum
      ∧ (gather ks).excluded = ks.countP Option.isNone := by
  induction ks using List.reverseRecOn with
  | nil => exact ⟨rfl, rfl, rfl⟩
  | append_singleton ks k ih =>
    obtain ⟨hbytes, hnodes, hexcluded⟩ := ih
    rw [gather_concat, keptRows_concat, List.countP_append]
    cases k with
    | none => exact ⟨by simpa [Listing.add] using hbytes, by simpa [Listing.add] using hnodes,
        by simp [Listing.add, hexcluded]⟩
    | some k => simp [Listing.add, hbytes, hnodes, hexcluded]

/-- **A listing holds the first row of each identity.** -/
theorem get_gather (ks : List (Option Kept)) (native : String) :
    IndexMap.get (gather ks).models native
      = ((keptRows ks).find? fun k => k.native = native).map Kept.model := by
  induction ks using List.reverseRecOn with
  | nil => rfl
  | append_singleton ks k ih =>
    rw [gather_concat, keptRows_concat, List.find?_append]
    cases k with
    | none =>
      show IndexMap.get (gather ks).models native = _
      rw [ih]
      simp
    | some k =>
      unfold Listing.add
      dsimp only
      by_cases hk : k.native = native
      · subst hk
        cases hget : IndexMap.get (gather ks).models k.native with
        | none =>
          rw [hget, eq_comm, Option.map_eq_none_iff] at ih
          rw [IndexMap.get_insert_self, ih]
          simp
        | some previous =>
          rw [hget, eq_comm, Option.map_eq_some_iff] at ih
          obtain ⟨first, hfirst, rfl⟩ := ih
          rw [hfirst]
          exact hget
      · have hother : [k].find? (fun k => k.native = native) = none := by simp [hk]
        rw [Option.toList_some, hother, Option.or_none, ← ih]
        cases hget : IndexMap.get (gather ks).models k.native with
        | none => exact IndexMap.get_insert_of_ne _ _ hk
        | some previous => rfl

theorem nodup_gather (ks : List (Option Kept)) : (IndexMap.keys (gather ks).models).Nodup := by
  induction ks using List.reverseRecOn with
  | nil => exact List.nodup_nil
  | append_singleton ks k ih =>
    rw [gather_concat]
    cases k with
    | none => exact ih
    | some k =>
      unfold Listing.add
      dsimp only
      split
      · exact ih
      · exact IndexMap.nodup_keys_insert ih _ _

theorem mem_keys_gather {native : String} :
    native ∈ IndexMap.keys (gather ks).models ↔ ∃ x ∈ keptRows ks, x.native = native := by
  rw [← IndexMap.get_isSome_iff, get_gather, Option.isSome_map, List.find?_isSome]
  simp

theorem models_gather_eq_nil : (gather ks).models = [] ↔ keptRows ks = [] := by
  have hkeys (native : String) : native ∈ IndexMap.keys (gather ks).models ↔ _ := mem_keys_gather
  constructor
  · intro h
    rw [List.eq_nil_iff_forall_not_mem]
    intro x hx
    have hmem := (hkeys x.native).mpr ⟨x, hx, rfl⟩
    rw [h] at hmem
    cases hmem
  · intro h
    rw [List.eq_nil_iff_forall_not_mem]
    intro e he
    obtain ⟨x, hx, -⟩ := (hkeys e.1).mp (IndexMap.mem_keys_of_mem he)
    rw [h] at hx
    cases hx

theorem exists_of_mem_gather {e : String × ObservedModel} (he : e ∈ (gather ks).models) :
    ∃ x ∈ keptRows ks, e = (x.native, x.model) := by
  have hget := IndexMap.get_eq_some_of_mem (nodup_gather ks) he
  rw [get_gather, Option.map_eq_some_iff] at hget
  obtain ⟨x, hx, hmodel⟩ := hget
  have hnative : x.native = e.1 := by simpa using List.find?_some hx
  exact ⟨x, List.mem_of_find?_eq_some hx, Prod.ext hnative.symm hmodel.symm⟩

/-- **A row agrees with the first of its identity** exactly where it agrees with all. -/
theorem repeatsAgree_concat {k : Kept} (hsound : ∀ x ∈ keptRows (ks ++ [some k]), x.Sound)
    (h : RepeatsAgree ks) : RepeatsAgree (ks ++ [some k]) ↔
      ∀ previous, IndexMap.get (gather ks).models k.native = some previous →
        Agree previous k.model := by
  rw [keptRows_concat, Option.toList_some, List.forall_mem_append, List.forall_mem_singleton]
    at hsound
  unfold RepeatsAgree at h ⊢
  rw [keptRows_concat, Option.toList_some, List.pairwise_append]
  constructor
  · rintro ⟨-, -, hall⟩ previous hprevious
    rw [get_gather, Option.map_eq_some_iff] at hprevious
    obtain ⟨first, hfirst, rfl⟩ := hprevious
    have hnative : first.native = k.native := by simpa using List.find?_some hfirst
    exact hall first (List.mem_of_find?_eq_some hfirst) k (List.mem_singleton.mpr rfl) hnative
  · intro htakes
    refine ⟨h, List.pairwise_singleton _ _, fun a ha b hb hnative => ?_⟩
    obtain rfl := List.mem_singleton.mp hb
    cases hfirst : (keptRows ks).find? (fun x => x.native = b.native) with
    | none => exact absurd hnative (by simpa using List.find?_eq_none.mp hfirst a ha)
    | some first =>
      have hagree : Agree first.model b.model := htakes _ (by rw [get_gather, hfirst]; rfl)
      obtain ⟨hsame, before, after, hrows, hbefore⟩ := List.find?_eq_some_iff_append.mp hfirst
      rw [hrows] at ha h
      rcases List.mem_append.mp ha with ha | ha
      · -- A row before the first of an identity has another one.
        exact absurd hnative (by simpa using hbefore a ha)
      · rcases List.mem_cons.mp ha with rfl | hafter
        · exact hagree
        · have hnatives : first.native = a.native := by
            rw [hnative]
            simpa using hsame
          have hfirsta : Agree first.model a.model :=
            (List.pairwise_cons.mp (List.pairwise_append.mp h).2.1).1 a hafter hnatives
          have hmem (x : Kept) (hx : x ∈ first :: after) : x.Sound :=
            hsound.1 x (hrows ▸ List.mem_append_right _ hx)
          have hsoundFirst := hmem first List.mem_cons_self
          have hsounda := hmem a (List.mem_cons_of_mem _ hafter)
          exact (hfirsta.symm hsoundFirst hsounda).trans hsounda hsoundFirst hsound.2 hagree

/-- **A listing takes a row** where all rows with it are as they should be. -/
theorem takes_gather (hsound : ∀ x ∈ keptRows (ks ++ [k]), x.Sound) (h : RepeatsAgree ks) :
    WithinBudgets (ks ++ [k]) ∧ RepeatsAgree (ks ++ [k])
      ↔ WithinBudgets ks ∧ (gather ks).Takes k := by
  obtain ⟨hbytes, hnodes, -⟩ := gather_totals ks
  cases k with
  | none =>
    unfold WithinBudgets RepeatsAgree at *
    rw [keptRows_concat, Option.toList_none, List.append_nil]
    exact and_congr_right fun _ => iff_of_true h trivial
  | some k =>
    rw [repeatsAgree_concat hsound h]
    unfold WithinBudgets Listing.Takes
    rw [keptRows_concat, hbytes, hnodes]
    simp only [Option.toList_some, List.map_append, List.map_singleton, List.sum_append,
      List.sum_singleton]
    constructor
    · rintro ⟨⟨h1, h2⟩, h3⟩
      exact ⟨⟨by omega, by omega⟩, h1, h2, h3⟩
    · rintro ⟨-, h1, h2, h3⟩
      exact ⟨⟨h1, h2⟩, h3⟩

/-- What holds of all rows holds of those read first. -/
theorem good_of_append {ks more : List (Option Kept)}
    (h : WithinBudgets (ks ++ more) ∧ RepeatsAgree (ks ++ more)) :
    WithinBudgets ks ∧ RepeatsAgree ks := by
  have hrows : keptRows (ks ++ more) = keptRows ks ++ keptRows more := List.filterMap_append
  obtain ⟨⟨hbytes, hnodes⟩, hrepeats⟩ := h
  unfold RepeatsAgree at hrepeats
  rw [hrows, List.map_append, List.sum_append] at hbytes hnodes
  rw [hrows] at hrepeats
  exact ⟨⟨by omega, by omega⟩, (List.pairwise_append.mp hrepeats).1⟩

end Gather

section Listed

variable {fromValue} {feed : Value} {authority : List String} {items : List Value} {s : Listing}

section

variable (hnumbers : NumbersRead fromValue) (hfeed : feed.wellFormed = true)
  (hitems : ∀ item ∈ items, item.wellFormed = true)

include hnumbers hfeed hitems

theorem sound_of_judged {ks : List (Option Kept)}
    (h : List.Forall₂ (fun item k => judge fromValue authority feed["response"] item = .ok k)
      items ks) : ∀ x ∈ keptRows ks, x.Sound := by
  induction h with
  | nil => exact fun x hx => by cases hx
  | @cons item k items ks hk _ ih =>
    rw [List.forall_mem_cons] at hitems
    have hrows : keptRows (k :: ks) = k.toList ++ keptRows ks := by cases k <;> rfl
    rw [hrows, List.forall_mem_append]
    refine ⟨fun x hx => ?_, ih hitems.2⟩
    obtain rfl := Option.mem_toList.mp hx
    exact sound_of_judge hnumbers hfeed hitems.1 hk

/-- **All rows of a page**, after others. -/
theorem foldlM_itemStep {before : List (Option Kept)} (hbefore : ∀ x ∈ keptRows before, x.Sound)
    (hgood : WithinBudgets before ∧ RepeatsAgree before) :
    items.foldlM (itemStep fromValue authority feed["response"]) (gather before) = .ok s ↔
      ∃ ks, List.Forall₂ (fun item k => judge fromValue authority feed["response"] item = .ok k)
          items ks
        ∧ (WithinBudgets (before ++ ks) ∧ RepeatsAgree (before ++ ks))
        ∧ s = gather (before ++ ks) := by
  induction items generalizing before with
  | nil =>
    rw [List.foldlM_nil, pure_eq_ok]
    constructor
    · rintro rfl
      exact ⟨[], .nil, by rwa [List.append_nil], by rw [List.append_nil]⟩
    · rintro ⟨ks, hks, -, rfl⟩
      cases hks
      rw [List.append_nil]
  | cons item items ih =>
    rw [List.forall_mem_cons] at hitems
    have hsound {k : Option Kept}
        (hk : judge fromValue authority feed["response"] item = .ok k) :
        ∀ x ∈ keptRows (before ++ [k]), x.Sound := by
      rw [keptRows_concat, List.forall_mem_append]
      refine ⟨hbefore, fun x hx => ?_⟩
      obtain rfl := Option.mem_toList.mp hx
      exact sound_of_judge hnumbers hfeed hitems.1 hk
    rw [List.foldlM_cons, bind_eq_ok]
    constructor
    · rintro ⟨t, hstep, hrest⟩
      obtain ⟨k, hk, htakes, rfl⟩ := itemStep_eq_ok.mp hstep
      have hgood' := (takes_gather (hsound hk) hgood.2).mpr ⟨hgood.1, htakes⟩
      rw [← gather_concat, ih hitems.2 (hsound hk) hgood'] at hrest
      obtain ⟨ks, hks, hall, rfl⟩ := hrest
      rw [List.append_assoc] at hall ⊢
      exact ⟨k :: ks, .cons hk hks, hall, rfl⟩
    · rintro ⟨ks, hks, hall, hs⟩
      cases hks with
      | @cons _ k _ ks hk hks =>
        have hsplit : before ++ k :: ks = (before ++ [k]) ++ ks := by simp
        rw [hsplit] at hall hs
        have hgood' := good_of_append hall
        refine ⟨_, itemStep_eq_ok.mpr ⟨k, hk,
          ((takes_gather (hsound hk) hgood.2).mp hgood').2, rfl⟩, ?_⟩
        rw [← gather_concat, ih hitems.2 (hsound hk) hgood']
        exact ⟨ks, hks, hall, hs⟩

end

/-! ## Pages -/

def pageRows (response page : Value) : Except RegistryError (List Value) := do
  orFail ((← read page (response["items_path"].asStr.getD "")).bind Value.asArray)
    (invalid "items_path must resolve to an array")

/-- **The rows of all pages**, in order. -/
def listedRows (response : Value) (pages : List Value) : Except RegistryError (List Value) := do
  return (← pages.mapM (pageRows response)).flatten

theorem foldlM_pageStep {response : Value} {pages rows : List Value}
    (h : listedRows response pages = .ok rows) (s : Listing) :
    pages.foldlM (pageStep fromValue authority response) s
      = rows.foldlM (itemStep fromValue authority response) s := by
  obtain ⟨lists, hlists, hflat⟩ := bind_eq_ok.mp h
  obtain rfl := pure_eq_ok.mp hflat
  have hall := mapM_eq_ok.mp hlists
  clear hlists hflat h
  induction hall generalizing s with
  | nil => rfl
  | @cons page items _ _ hpage _ ih =>
    rw [List.foldlM_cons, List.flatten_cons, List.foldlM_append]
    have hstep : pageStep fromValue authority response s page
        = items.foldlM (itemStep fromValue authority response) s := by
      obtain ⟨found, hread, hitems⟩ := bind_eq_ok.mp hpage
      unfold pageStep
      rw [hread]
      show (orFail _ _ >>= _) = _
      rw [hitems]
      rfl
    rw [hstep]
    exact congrArg _ (funext ih)

theorem wellFormed_listedRows {response : Value} {pages rows : List Value}
    (hpages : ∀ page ∈ pages, page.wellFormed = true)
    (h : listedRows response pages = .ok rows) : ∀ row ∈ rows, row.wellFormed = true := by
  obtain ⟨lists, hlists, h⟩ := bind_eq_ok.mp h
  obtain rfl := pure_eq_ok.mp h
  intro row hrow
  obtain ⟨items, hitems, hrow⟩ := List.mem_flatten.mp hrow
  obtain ⟨page, hpage, hread⟩ := exists_of_mem_mapM hlists hitems
  obtain ⟨found, hread, hfound⟩ := bind_eq_ok.mp hread
  obtain ⟨v, rfl, hv⟩ := Option.bind_eq_some_iff.mp (orFail_eq_ok.mp hfound)
  obtain ⟨ts, -, hread⟩ := bind_eq_ok.mp hread
  have hwf := wellFormed_readTokens (hpages page hpage) hread
  rw [Value.eq_array_of_asArray hv, Value.wellFormed_array] at hwf
  exact hwf row hrow

/-- The observation of judged rows. -/
def observationOf (ks : List (Option Kept)) : Observation where
  models := ((gather ks).models.insertionSort (fun a b => a.1 ≤ b.1)).map Prod.snd
  excluded := (gather ks).excluded

/-- What a feed asks of its rows, apart from how repeated ones agree. -/
structure Admissible (feed : Value) (authority : List String) (ks : List (Option Kept)) :
    Prop where
  declared : validate feed = .ok ()
  writes : writes feed = .ok authority
  mapped : feed["response"]["mapping"].isObject = true
  budgets : WithinBudgets ks
  inventory : ¬ ("models" ∈ authority ∧ keptRows ks = []
    ∧ ¬ feed["inventory"]["allow_empty"].eqv (.bool true))

/-- **What is accepted**: rows each of which is accepted by itself, of which those that
repeat an identity agree. -/
theorem normalize_eq_ok {pages rows : List Value} {o : Observation}
    (hnumbers : NumbersRead fromValue) (hfeed : feed.wellFormed = true)
    (hpages : ∀ page ∈ pages, page.wellFormed = true)
    (hrows : listedRows feed["response"] pages = .ok rows) :
    normalize fromValue feed pages = .ok o ↔ ∃ authority ks,
      List.Forall₂ (fun item k => judge fromValue authority feed["response"] item = .ok k) rows ks
        ∧ Admissible feed authority ks ∧ RepeatsAgree ks ∧ o = observationOf ks := by
  have hitems := wellFormed_listedRows hpages hrows
  have hlisting (authority : List String) (s : Listing) :
      rows.foldlM (itemStep fromValue authority feed["response"]) (gather []) = .ok s ↔ _ :=
    foldlM_itemStep hnumbers hfeed hitems (fun x hx => by cases hx)
      ⟨⟨Nat.zero_le _, Nat.zero_le _⟩, List.Pairwise.nil⟩
  constructor
  · intro h
    obtain ⟨_, hvalidate, h⟩ := bind_eq_ok.mp h
    obtain ⟨authority, hwrites, h⟩ := bind_eq_ok.mp h
    obtain ⟨_, hmapped, h⟩ := bind_eq_ok.mp h
    obtain ⟨listing, hlisted, h⟩ := bind_eq_ok.mp h
    obtain ⟨_, hinventory, h⟩ := bind_eq_ok.mp h
    rw [foldlM_pageStep hrows] at hlisted
    obtain ⟨ks, hks, ⟨hbudgets, hrepeats⟩, rfl⟩ := (hlisting authority listing).mp hlisted
    have hinventory := ensure_eq_ok.mp hinventory
    rw [models_gather_eq_nil] at hinventory
    exact ⟨authority, ks, hks, ⟨hvalidate, hwrites, ensure_eq_ok.mp hmapped, hbudgets, hinventory⟩,
      hrepeats,
      (pure_eq_ok.mp h).symm⟩
  · rintro ⟨authority, ks, hks, hadmissible, hrepeats, rfl⟩
    have hlisted := (hlisting authority (gather ks)).mpr
      ⟨ks, hks, ⟨hadmissible.budgets, hrepeats⟩, rfl⟩
    refine bind_eq_ok.mpr ⟨(), hadmissible.declared, bind_eq_ok.mpr ⟨authority, hadmissible.writes,
      bind_eq_ok.mpr ⟨(), ensure_eq_ok.mpr hadmissible.mapped,
        bind_eq_ok.mpr ⟨gather ks, ?_, bind_eq_ok.mpr ⟨(), ?_, rfl⟩⟩⟩⟩⟩
    · rw [foldlM_pageStep hrows]
      exact hlisted
    · rw [ensure_eq_ok, models_gather_eq_nil]
      exact hadmissible.inventory

end Listed

/-! ## Other orders -/

def nativeOf (row : ObservedModel) : Option String := row.value["provider_model_id"].asStr

/-- **Observations that tell the same**: as many rows left out, and the same identities
in the same order, with rows that agree. -/
structure SameObservation (o o' : Observation) : Prop where
  excluded : o.excluded = o'.excluded
  models : List.Forall₂ (fun a b => nativeOf a = nativeOf b ∧ Agree a b) o.models o'.models

section Reordered

variable {ks ks' : List (Option Kept)}

theorem WithinBudgets.perm (hperm : ks.Perm ks') (h : WithinBudgets ks) : WithinBudgets ks' := by
  have hrows : (keptRows ks).Perm (keptRows ks') := hperm.filterMap id
  unfold WithinBudgets at h ⊢
  rwa [← (hrows.map Kept.bytes).sum_eq, ← (hrows.map Kept.nodes).sum_eq]

/-- Rows that repeat an identity agree, whichever come first. -/
theorem RepeatsAgree.forall (hsound : ∀ x ∈ keptRows ks, x.Sound) (h : RepeatsAgree ks) :
    ∀ a ∈ keptRows ks, ∀ b ∈ keptRows ks, a.native = b.native → Agree a.model b.model := by
  have hflip : (keptRows ks).Pairwise (flip fun a b : Kept =>
      a.native = b.native → Agree a.model b.model) :=
    h.imp_of_mem fun ha hb hab hnative =>
      (hab hnative.symm).symm (hsound _ ha) (hsound _ hb)
  intro a ha b hb
  exact List.Pairwise.forall_of_forall_of_flip (fun x hx _ => .self (hsound x hx)) h hflip ha hb

theorem RepeatsAgree.perm (hsound : ∀ x ∈ keptRows ks, x.Sound) (hperm : ks.Perm ks')
    (h : RepeatsAgree ks) : RepeatsAgree ks' := by
  have hrows : (keptRows ks).Perm (keptRows ks') := hperm.filterMap id
  have hall := h.forall hsound
  refine List.pairwise_iff_forall_sublist.mpr fun {a b} hab => ?_
  exact hall a (hrows.mem_iff.mpr (hab.subset (by simp)))
    b (hrows.mem_iff.mpr (hab.subset (by simp)))

theorem forall₂_of_map_eq {α β γ : Type*} {f : α → γ} {g : β → γ} {r : α → β → Prop} {xs : List α}
    {ys : List β} (h : xs.map f = ys.map g) (hr : ∀ x ∈ xs, ∀ y ∈ ys, f x = g y → r x y) :
    List.Forall₂ r xs ys := by
  induction xs generalizing ys with
  | nil =>
    obtain rfl := List.map_eq_nil_iff.mp h.symm
    exact .nil
  | cons x xs ih =>
    cases ys with
    | nil => cases h
    | cons y ys =>
      obtain ⟨hxy, hrest⟩ := List.cons.inj h
      exact .cons (hr x List.mem_cons_self y List.mem_cons_self hxy) (ih hrest fun a ha b hb =>
        hr a (List.mem_cons_of_mem _ ha) b (List.mem_cons_of_mem _ hb))

/-- The identities of a listing in their order. -/
def sortedKeys (ks : List (Option Kept)) : List String :=
  ((gather ks).models.insertionSort (fun a b => a.1 ≤ b.1)).map Prod.fst

theorem pairwise_sortedKeys (ks : List (Option Kept)) : (sortedKeys ks).Pairwise (· ≤ ·) := by
  exact List.pairwise_map.mpr (List.pairwise_insertionSort _ _)

theorem perm_sortedKeys (ks : List (Option Kept)) :
    (sortedKeys ks).Perm (IndexMap.keys (gather ks).models) :=
  (List.perm_insertionSort _ _).map Prod.fst

/-- **Reordered rows are the same observation.** -/
theorem sameObservation_of_perm (hsound : ∀ x ∈ keptRows ks, x.Sound) (h : RepeatsAgree ks)
    (hperm : ks.Perm ks') : SameObservation (observationOf ks) (observationOf ks') := by
  have hrows : (keptRows ks).Perm (keptRows ks') := hperm.filterMap id
  have hkeys : sortedKeys ks = sortedKeys ks' := by
    have hmem (native : String) : native ∈ IndexMap.keys (gather ks).models
        ↔ native ∈ IndexMap.keys (gather ks').models := by
      rw [mem_keys_gather, mem_keys_gather]
      simp only [hrows.mem_iff]
    have hsame := (List.perm_ext_iff_of_nodup (nodup_gather ks) (nodup_gather ks')).mpr hmem
    exact List.Perm.eq_of_pairwise (fun _ _ _ _ => Std.le_antisymm) (pairwise_sortedKeys ks)
      (pairwise_sortedKeys ks')
      ((perm_sortedKeys ks).trans (hsame.trans (perm_sortedKeys ks').symm))
  refine ⟨?_, ?_⟩
  · show (gather ks).excluded = (gather ks').excluded
    rw [(gather_totals ks).2.2, (gather_totals ks').2.2, hperm.countP_eq]
  · rw [observationOf, observationOf, List.forall₂_map_left_iff, List.forall₂_map_right_iff]
    refine forall₂_of_map_eq hkeys fun a ha b hb hab => ?_
    obtain ⟨x, hx, rfl⟩ := exists_of_mem_gather ((List.mem_insertionSort _).mp ha)
    obtain ⟨y, hy, rfl⟩ := exists_of_mem_gather ((List.mem_insertionSort _).mp hb)
    have hy := hrows.mem_iff.mpr hy
    refine ⟨?_, h.forall hsound x hx y hy hab⟩
    show x.model.value["provider_model_id"].asStr = y.model.value["provider_model_id"].asStr
    rw [(hsound x hx).native, (hsound y hy).native]
    exact congrArg some hab

theorem natives_observationOf (hsound : ∀ x ∈ keptRows ks, x.Sound) :
    (observationOf ks).models.map nativeOf = (sortedKeys ks).map some := by
  rw [observationOf, sortedKeys, List.map_map, List.map_map]
  refine List.map_congr_left fun e he => ?_
  obtain ⟨x, hx, rfl⟩ := exists_of_mem_gather ((List.mem_insertionSort _).mp he)
  exact (hsound x hx).native

/-- Each identity is observed once. -/
theorem nodup_observationOf (hsound : ∀ x ∈ keptRows ks, x.Sound) :
    ((observationOf ks).models.map nativeOf).Nodup := by
  rw [natives_observationOf hsound]
  exact ((perm_sortedKeys ks).nodup_iff.mpr (nodup_gather ks)).map (Option.some_injective _)

/-- The identities observed are those of the rows kept. -/
theorem mem_natives_observationOf (hsound : ∀ x ∈ keptRows ks, x.Sound) (native : String) :
    some native ∈ (observationOf ks).models.map nativeOf
      ↔ native ∈ (keptRows ks).map Kept.native := by
  rw [natives_observationOf hsound, List.mem_map_of_injective (Option.some_injective _),
    (perm_sortedKeys ks).mem_iff, mem_keys_gather, List.mem_map]

end Reordered

/-- **The order of a listing does not matter.** However its rows are ordered and split
into pages, a listing is accepted or refused, and what is observed of it is the same:
as many rows left out, the same identities, each once, and rows that are equal by type
with the same fields observed. It is the observation of its rows, with every identity of
those kept. Rows each of which is accepted by itself, within the budgets, are accepted
together exactly where those that repeat an identity agree. -/
theorem normalize_order {fromValue : Value → Except RegistryError Unit} {feed : Value}
    {pages pages' rows rows' : List Value} (hnumbers : NumbersRead fromValue)
    (hfeed : feed.wellFormed = true) (hpages : ∀ page ∈ pages, page.wellFormed = true)
    (hpages' : ∀ page ∈ pages', page.wellFormed = true)
    (hrows : listedRows feed["response"] pages = .ok rows)
    (hrows' : listedRows feed["response"] pages' = .ok rows') (hperm : rows.Perm rows') :
    ((∃ o, normalize fromValue feed pages = .ok o)
        ↔ ∃ o, normalize fromValue feed pages' = .ok o)
      ∧ (∀ o o', normalize fromValue feed pages = .ok o → normalize fromValue feed pages' = .ok o' →
        SameObservation o o')
      ∧ (∀ o, normalize fromValue feed pages = .ok o → (o.models.map nativeOf).Nodup
        ∧ ∃ authority ks, List.Forall₂ (fun item k =>
            judge fromValue authority feed["response"] item = .ok k) rows ks
          ∧ Admissible feed authority ks ∧ o = observationOf ks
          ∧ ∀ native, some native ∈ o.models.map nativeOf
            ↔ native ∈ (keptRows ks).map Kept.native)
      ∧ ∀ authority ks, List.Forall₂ (fun item k =>
            judge fromValue authority feed["response"] item = .ok k) rows ks →
          Admissible feed authority ks →
          ((∃ o, normalize fromValue feed pages = .ok o) ↔ RepeatsAgree ks) := by
  have hitems := wellFormed_listedRows hpages hrows
  have hnormal (o : Observation) : normalize fromValue feed pages = .ok o ↔ _ :=
    normalize_eq_ok hnumbers hfeed hpages hrows
  have hnormal' (o : Observation) : normalize fromValue feed pages' = .ok o ↔ _ :=
    normalize_eq_ok hnumbers hfeed hpages' hrows'
  -- What is judged of the rows in one order is judged of them in the other.
  have hmove {items items' : List Value} (hitems : items.Perm items') {authority : List String}
      {ks : List (Option Kept)} (hks : List.Forall₂ (fun item k =>
        judge fromValue authority feed["response"] item = .ok k) items ks) :
      ∃ ks', List.Forall₂ (fun item k =>
        judge fromValue authority feed["response"] item = .ok k) items' ks' ∧ ks'.Perm ks :=
    List.perm_comp_forall₂ hitems.symm hks
  have hadmissible {authority : List String} {ks ks' : List (Option Kept)} (hks : ks.Perm ks')
      (h : Admissible feed authority ks) : Admissible feed authority ks' := by
    refine ⟨h.declared, h.writes, h.mapped, h.budgets.perm hks, fun hnone => h.inventory ?_⟩
    have hkept : (keptRows ks).Perm (keptRows ks') := hks.filterMap id
    exact ⟨hnone.1, List.Perm.eq_nil (hnone.2.1 ▸ hkept), hnone.2.2⟩
  have hunique {authority authority' : List String} {ks ks' : List (Option Kept)}
      (hks : List.Forall₂ (fun item k =>
        judge fromValue authority feed["response"] item = .ok k) rows ks)
      (hks' : List.Forall₂ (fun item k =>
        judge fromValue authority' feed["response"] item = .ok k) rows ks')
      (h : Admissible feed authority ks) (h' : Admissible feed authority' ks') : ks = ks' := by
    obtain rfl := Except.ok.inj (h.writes.symm.trans h'.writes)
    exact Except.ok.inj ((mapM_eq_ok.mpr hks).symm.trans (mapM_eq_ok.mpr hks'))
  refine ⟨⟨?_, ?_⟩, fun o o' ho ho' => ?_, fun o ho => ?_, fun authority ks hks h => ⟨?_, ?_⟩⟩
  · rintro ⟨o, ho⟩
    obtain ⟨authority, ks, hks, h, hrepeats, -⟩ := (hnormal o).mp ho
    obtain ⟨ks', hks', hback⟩ := hmove hperm hks
    exact ⟨_, (hnormal' _).mpr ⟨authority, ks', hks', hadmissible hback.symm h,
      hrepeats.perm (sound_of_judged hnumbers hfeed hitems hks) hback.symm, rfl⟩⟩
  · rintro ⟨o, ho⟩
    obtain ⟨authority, ks, hks, h, hrepeats, -⟩ := (hnormal' o).mp ho
    obtain ⟨ks', hks', hback⟩ := hmove hperm.symm hks
    exact ⟨_, (hnormal _).mpr ⟨authority, ks', hks', hadmissible hback.symm h,
      hrepeats.perm (sound_of_judged hnumbers hfeed (wellFormed_listedRows hpages' hrows') hks)
        hback.symm, rfl⟩⟩
  · obtain ⟨authority, ks, hks, h, hrepeats, rfl⟩ := (hnormal o).mp ho
    obtain ⟨authority', ks', hks', h', -, rfl⟩ := (hnormal' o').mp ho'
    obtain ⟨ks₂, hks₂, hback⟩ := hmove hperm.symm hks'
    obtain rfl := hunique hks hks₂ h (hadmissible hback.symm h')
    exact sameObservation_of_perm (sound_of_judged hnumbers hfeed hitems hks) hrepeats hback
  · obtain ⟨authority, ks, hks, h, -, rfl⟩ := (hnormal o).mp ho
    have hsound := sound_of_judged hnumbers hfeed hitems hks
    exact ⟨nodup_observationOf hsound, authority, ks, hks, h, rfl,
      mem_natives_observationOf hsound⟩
  · rintro ⟨o, ho⟩
    obtain ⟨authority', ks', hks', h', hrepeats, -⟩ := (hnormal o).mp ho
    obtain rfl := hunique hks hks' h h'
    exact hrepeats
  · intro hrepeats
    exact ⟨_, (hnormal _).mpr ⟨authority, ks, hks, h, hrepeats, rfl⟩⟩

/-! ### A listing in two orders

Chat models only are taken, and one model is listed twice. -/

def listedRow (id name kind listed : String) : Value := .object [("id", .string id),
  ("name", .string name), ("kind", .string kind), ("listed", .string listed)]

def listedPage (rows : List Value) : Value := .object [("data", .array rows)]

def namesFeed : Value := .object [
  ("kind", .string "v1_models"), ("writes", .array [.string "metadata"]),
  ("response", .object [
    ("items_path", .string "/data"),
    ("mapping", .object [("/id", .string "/provider_model_id"), ("/name", .string "/name")]),
    ("filter", .object [("path", .string "/kind"), ("in", .array [.string "chat"])])])]

/-- The rows of the listing; the first and the last are of one model. -/
def listed : List Value := [listedRow "a" "A" "chat" "may", listedRow "c" "C" "embedding" "may",
  listedRow "b" "B" "chat" "may", listedRow "a" "A" "chat" "june"]

def admitReadable (document : Value) : Except RegistryError Unit :=
  ensure (readable document = true) (invalid "JSON number exceeds the supported precision")

/-- Four rows on two pages, and the other way round on others, one of them empty. -/
theorem normalize_order_twoPages :
    (normalize admitReadable namesFeed
        [listedPage (listed.take 2), listedPage (listed.drop 2)]).isOk = true
      ∧ ∀ o o', normalize admitReadable namesFeed
          [listedPage (listed.take 2), listedPage (listed.drop 2)] = .ok o →
        normalize admitReadable namesFeed
          [listedPage (listed.reverse.take 3), listedPage [], listedPage (listed.reverse.drop 3)]
            = .ok o' →
        SameObservation o o' := by
  refine ⟨by decide +kernel, (normalize_order ?_ ?_ ?_ ?_ rfl rfl (List.reverse_perm _).symm).2.1⟩
  · exact fun document h => ensure_eq_ok.mp h
  · decide
  · decide
  · decide

end Mapping

end BitRouter.Registry
