import BitRouter.Registry.Rows

/-!
# Typed equality

Two values are equal by type where they differ in the spelling of their numbers
and the order of their fields alone: `typedEqual` looks the fields of one object up
in the other. It is symmetric and transitive on well-formed values, and reflexive on
those whose numbers have exact values, as those of an admitted row do.
-/

namespace BitRouter.Registry

/-- **Induction over a value**: what holds of an array or an object if it holds of
what it contains. -/
theorem Value.induction {P : Value → Prop} (hnull : P .null) (hbool : ∀ b, P (.bool b))
    (hnumber : ∀ lexeme, P (.number lexeme)) (hstring : ∀ s, P (.string s))
    (harray : ∀ items, (∀ v ∈ items, P v) → P (.array items))
    (hobject : ∀ fields, (∀ e ∈ fields, P e.2) → P (.object fields)) : ∀ v, P v
  | .null => hnull
  | .bool b => hbool b
  | .number lexeme => hnumber lexeme
  | .string s => hstring s
  | .array items => harray items fun v _ =>
      Value.induction hnull hbool hnumber hstring harray hobject v
  | .object fields => hobject fields fun e _ =>
      Value.induction hnull hbool hnumber hstring harray hobject e.2
termination_by v => sizeOf v
decreasing_by
  · next hv =>
    have := List.sizeOf_lt_of_mem hv
    simp only [Value.array.sizeOf_spec]
    omega
  · next he =>
    have := List.sizeOf_lt_of_mem he
    obtain ⟨k, v⟩ := e
    simp only [Value.object.sizeOf_spec, Prod.mk.sizeOf_spec] at this ⊢
    omega

namespace Mapping

/-! ## Typed equality -/

theorem eq_none_of_rel {α β : Type*} {r : α → β → Prop} {o : Option β}
    (h : Option.Rel r none o) : o = none := by
  cases h
  rfl

theorem exists_of_rel {α β : Type*} {r : α → β → Prop} {a : α} {o : Option β}
    (h : Option.Rel r (some a) o) : ∃ b, o = some b ∧ r a b := by
  cases h with
  | some hab => exact ⟨_, rfl, hab⟩

section TypedEqual

attribute [local simp] typedEqual typedEqualItems typedEqualFields

variable {xs ys : List Value} {fs gs : List (String × Value)} {a b c v w : Value}

theorem typedEqualItems_iff (h : xs.length = ys.length) :
    typedEqualItems xs ys = true ↔ List.Forall₂ (fun x y => typedEqual x y = true) xs ys := by
  induction xs generalizing ys with
  | nil =>
    obtain rfl := List.length_eq_zero_iff.mp h.symm
    simp [typedEqualItems]
  | cons x xs ih =>
    cases ys with
    | nil => simp at h
    | cons y ys =>
      rw [typedEqualItems, Bool.and_eq_true, ih (Nat.succ.inj h), List.forall₂_cons]

theorem typedEqual_array :
    typedEqual (.array xs) (.array ys) = true
      ↔ List.Forall₂ (fun x y => typedEqual x y = true) xs ys := by
  rw [typedEqual, Bool.and_eq_true, decide_eq_true_iff]
  constructor
  · rintro ⟨hlength, hitems⟩
    exact (typedEqualItems_iff hlength).mp hitems
  · intro h
    exact ⟨h.length_eq, (typedEqualItems_iff h.length_eq).mpr h⟩

theorem typedEqualFields_iff : typedEqualFields fs gs = true ↔
    ∀ e ∈ fs, ∃ w, IndexMap.get gs e.1 = some w ∧ typedEqual e.2 w = true := by
  induction fs with
  | nil => simp [typedEqualFields]
  | cons e fs ih =>
    obtain ⟨k, v⟩ := e
    rw [typedEqualFields, Bool.and_eq_true, ih, List.forall_mem_cons]
    refine and_congr_left fun _ => ?_
    cases hget : IndexMap.get gs k <;> simp

/-- **Objects are equal as maps.** -/
theorem typedEqual_object (hfs : (IndexMap.keys fs).Nodup) (hgs : (IndexMap.keys gs).Nodup) :
    typedEqual (.object fs) (.object gs) = true ↔
      ∀ k, Option.Rel (fun x y => typedEqual x y = true) (IndexMap.get fs k)
        (IndexMap.get gs k) := by
  have hlength (m : List (String × Value)) : (IndexMap.keys m).length = m.length :=
    List.length_map _
  rw [typedEqual, Bool.and_eq_true, decide_eq_true_iff, typedEqualFields_iff]
  constructor
  · rintro ⟨heq, hfields⟩ k
    have hsubset : IndexMap.keys fs ⊆ IndexMap.keys gs := by
      intro k hk
      obtain ⟨e, he, rfl⟩ := List.mem_map.mp hk
      obtain ⟨w, hw, -⟩ := hfields e he
      exact IndexMap.get_isSome_iff.mp (by rw [hw]; rfl)
    have hperm : (IndexMap.keys fs).Perm (IndexMap.keys gs) :=
      (hfs.subperm hsubset).perm_of_length_le (by rw [hlength, hlength, heq])
    cases hk : IndexMap.get fs k with
    | none =>
      rw [IndexMap.get_eq_none_iff, hperm.mem_iff, ← IndexMap.get_eq_none_iff] at hk
      rw [hk]
      exact .none
    | some v =>
      obtain ⟨w, hw, hvw⟩ := hfields _ (IndexMap.mem_of_get_eq_some hk)
      rw [hw]
      exact .some hvw
  · intro h
    have hkeys : ∀ k, k ∈ IndexMap.keys fs ↔ k ∈ IndexMap.keys gs := by
      intro k
      rw [← IndexMap.get_isSome_iff, ← IndexMap.get_isSome_iff]
      have hk := h k
      cases hf : IndexMap.get fs k with
      | none =>
        rw [hf] at hk
        rw [eq_none_of_rel hk]
      | some v =>
        rw [hf] at hk
        obtain ⟨w, hw, -⟩ := exists_of_rel hk
        rw [hw]
        simp
    have hperm := (List.perm_ext_iff_of_nodup hfs hgs).mpr hkeys
    refine ⟨by rw [← hlength fs, ← hlength gs]; exact hperm.length_eq, fun e he => ?_⟩
    have hk := h e.1
    rw [IndexMap.get_eq_some_of_mem hfs he] at hk
    cases hg : IndexMap.get gs e.1 with
    | none =>
      rw [hg] at hk
      cases hk
    | some w =>
      rw [hg] at hk
      cases hk with
      | some hvw => exact ⟨w, rfl, hvw⟩

theorem typedEqual_number {s t : String} : typedEqual (.number s) (.number t) = true ↔
    ∃ q, exact s = some q ∧ exact t = some q := by
  rw [typedEqual]
  cases hs : exact s <;> cases ht : exact t <;> simp [eq_comm]

theorem typedEqual_null : typedEqual .null b = true ↔ b = .null := by
  cases b <;> simp [typedEqual]

theorem typedEqual_bool {x : Bool} : typedEqual (.bool x) b = true ↔ b = .bool x := by
  cases b <;> simp [typedEqual, eq_comm]

theorem typedEqual_string {s : String} : typedEqual (.string s) b = true ↔ b = .string s := by
  cases b <;> simp [typedEqual, eq_comm]

/-- **Typed equality is symmetric.** -/
theorem typedEqual_symm (ha : a.wellFormed = true) (hb : b.wellFormed = true)
    (h : typedEqual a b = true) : typedEqual b a = true := by
  induction a using Value.induction generalizing b with
  | hnull =>
    obtain rfl := typedEqual_null.mp h
    exact h
  | hbool x =>
    obtain rfl := typedEqual_bool.mp h
    exact h
  | hstring s =>
    obtain rfl := typedEqual_string.mp h
    exact h
  | hnumber s =>
    cases b with
    | number t =>
      obtain ⟨q, hs, ht⟩ := typedEqual_number.mp h
      exact typedEqual_number.mpr ⟨q, ht, hs⟩
    | _ => simp [typedEqual] at h
  | harray xs ih =>
    cases b with
    | array ys =>
      rw [Value.wellFormed_array] at ha hb
      rw [typedEqual_array] at h ⊢
      induction h with
      | nil => exact .nil
      | cons hxy _ ihs =>
        rw [List.forall_mem_cons] at ih ha hb
        exact .cons (ih.1 ha.1 hb.1 hxy) (ihs ih.2 ha.2 hb.2)
    | _ => simp [typedEqual] at h
  | hobject fs ih =>
    cases b with
    | object gs =>
      obtain ⟨hfs, hfields⟩ := Value.wellFormed_object.mp ha
      obtain ⟨hgs, hfields'⟩ := Value.wellFormed_object.mp hb
      rw [typedEqual_object hfs hgs] at h
      rw [typedEqual_object hgs hfs]
      intro k
      have hk := h k
      cases hf : IndexMap.get fs k with
      | none =>
        rw [hf] at hk
        rw [eq_none_of_rel hk]
        exact .none
      | some v =>
        rw [hf] at hk
        obtain ⟨w, hw, hvw⟩ := exists_of_rel hk
        have hv := IndexMap.mem_of_get_eq_some hf
        rw [hw]
        exact .some (ih _ hv (hfields _ hv) (hfields' _ (IndexMap.mem_of_get_eq_some hw)) hvw)
    | _ => simp [typedEqual] at h

/-- **Typed equality is transitive.** -/
theorem typedEqual_trans (ha : a.wellFormed = true) (hb : b.wellFormed = true)
    (hc : c.wellFormed = true) (h : typedEqual a b = true) (h' : typedEqual b c = true) :
    typedEqual a c = true := by
  induction a using Value.induction generalizing b c with
  | hnull =>
    obtain rfl := typedEqual_null.mp h
    exact h'
  | hbool x =>
    obtain rfl := typedEqual_bool.mp h
    exact h'
  | hstring s =>
    obtain rfl := typedEqual_string.mp h
    exact h'
  | hnumber s =>
    cases b with
    | number t =>
      cases c with
      | number u =>
        obtain ⟨q, hs, ht⟩ := typedEqual_number.mp h
        obtain ⟨q', ht', hu⟩ := typedEqual_number.mp h'
        obtain rfl := Option.some.inj (ht.symm.trans ht')
        exact typedEqual_number.mpr ⟨q, hs, hu⟩
      | _ => simp [typedEqual] at h'
    | _ => simp [typedEqual] at h
  | harray xs ih =>
    cases b with
    | array ys =>
      cases c with
      | array zs =>
        rw [Value.wellFormed_array] at ha hb hc
        rw [typedEqual_array] at h h' ⊢
        induction h generalizing zs with
        | nil => exact h'
        | cons hxy _ ihs =>
          cases h' with
          | cons hyz hrest =>
            rw [List.forall_mem_cons] at ih ha hb hc
            exact .cons (ih.1 ha.1 hb.1 hc.1 hxy hyz) (ihs ih.2 ha.2 hb.2 _ hc.2 hrest)
      | _ => simp [typedEqual] at h'
    | _ => simp [typedEqual] at h
  | hobject fs ih =>
    cases b with
    | object gs =>
      cases c with
      | object hs =>
        obtain ⟨hfs, hfields⟩ := Value.wellFormed_object.mp ha
        obtain ⟨hgs, hfields'⟩ := Value.wellFormed_object.mp hb
        obtain ⟨hhs, hfields''⟩ := Value.wellFormed_object.mp hc
        rw [typedEqual_object hfs hgs] at h
        rw [typedEqual_object hgs hhs] at h'
        rw [typedEqual_object hfs hhs]
        intro k
        have hk := h k
        have hk' := h' k
        cases hf : IndexMap.get fs k with
        | none =>
          rw [hf] at hk
          rw [eq_none_of_rel hk] at hk'
          rw [eq_none_of_rel hk']
          exact .none
        | some v =>
          rw [hf] at hk
          obtain ⟨w, hw, hvw⟩ := exists_of_rel hk
          rw [hw] at hk'
          obtain ⟨x, hx, hwx⟩ := exists_of_rel hk'
          have hv := IndexMap.mem_of_get_eq_some hf
          rw [hx]
          exact .some (ih _ hv (hfields _ hv) (hfields' _ (IndexMap.mem_of_get_eq_some hw))
            (hfields'' _ (IndexMap.mem_of_get_eq_some hx)) hvw hwx)
      | _ => simp [typedEqual] at h'
    | _ => simp [typedEqual] at h

end TypedEqual

/-! ## Numbers that are read -/

mutual

/-- Whether the numbers of a value have exact values. -/
def readable : Value → Bool
  | .number lexeme => (exact lexeme).isSome
  | .array items => readableItems items
  | .object fields => readableFields fields
  | _ => true

def readableItems : List Value → Bool
  | [] => true
  | v :: items => readable v && readableItems items

def readableFields : List (String × Value) → Bool
  | [] => true
  | (_, v) :: fields => readable v && readableFields fields

end

@[simp] theorem readable_array {items : List Value} :
    readable (.array items) = true ↔ ∀ v ∈ items, readable v = true := by
  show readableItems items = true ↔ _
  induction items with
  | nil => simp [readableItems]
  | cons v items ih => rw [readableItems, Bool.and_eq_true, ih, List.forall_mem_cons]

@[simp] theorem readable_object {fields : List (String × Value)} :
    readable (.object fields) = true ↔ ∀ e ∈ fields, readable e.2 = true := by
  show readableFields fields = true ↔ _
  induction fields with
  | nil => simp [readableFields]
  | cons e fields ih => rw [readableFields, Bool.and_eq_true, ih, List.forall_mem_cons]

/-- **A readable value equals itself.** -/
theorem typedEqual_self {v : Value} (hv : v.wellFormed = true) (h : readable v = true) :
    typedEqual v v = true := by
  induction v using Value.induction with
  | hnull => rfl
  | hbool x => exact typedEqual_bool.mpr rfl
  | hstring s => exact typedEqual_string.mpr rfl
  | hnumber s =>
    obtain ⟨q, hq⟩ := Option.isSome_iff_exists.mp h
    exact typedEqual_number.mpr ⟨q, hq, hq⟩
  | harray items ih =>
    rw [Value.wellFormed_array] at hv
    rw [readable_array] at h
    exact typedEqual_array.mpr
      (List.forall₂_same.mpr fun v hmem => ih v hmem (hv v hmem) (h v hmem))
  | hobject fields ih =>
    obtain ⟨hkeys, hfields⟩ := Value.wellFormed_object.mp hv
    rw [readable_object] at h
    refine (typedEqual_object hkeys hkeys).mpr fun k => ?_
    cases hget : IndexMap.get fields k with
    | none => exact .none
    | some v =>
      have hmem := IndexMap.mem_of_get_eq_some hget
      exact .some (ih _ hmem (hfields _ hmem) (h _ hmem))

theorem mem_withoutClearsFields {map : List (String × Value)} {e : String × Value} (he : e ∈ map)
    (hnull : e.2.isNull = false) : (e.1, withoutClears e.2) ∈ withoutClearsFields map := by
  induction map with
  | nil => cases he
  | cons first map ih =>
    rw [withoutClearsFields]
    rcases List.mem_cons.mp he with rfl | he
    · rw [if_neg (by simp [hnull])]
      exact List.mem_cons_self
    · split
      · exact ih he
      · exact List.mem_cons_of_mem _ (ih he)

theorem withoutClearsItems_eq (items : List Value) :
    withoutClearsItems items = items.map withoutClears := by
  induction items with
  | nil => rfl
  | cons v items ih => rw [withoutClearsItems, ih, List.map_cons]

/-- The clears that are left out hold no numbers. -/
theorem readable_of_withoutClears {v : Value} (h : readable (withoutClears v) = true) :
    readable v = true := by
  induction v using Value.induction with
  | hnull => rfl
  | hbool x => rfl
  | hstring s => rfl
  | hnumber s => exact h
  | harray items ih =>
    rw [withoutClears, withoutClearsItems_eq, readable_array, List.forall_mem_map] at h
    exact readable_array.mpr fun v hv => ih v hv (h v hv)
  | hobject fields ih =>
    rw [withoutClears, readable_object] at h
    refine readable_object.mpr fun e he => ?_
    cases hnull : e.2.isNull with
    | true =>
      cases hvalue : e.2 with
      | null => rfl
      | _ => rw [hvalue] at hnull; cases hnull
    | false => exact ih e he (h _ (mem_withoutClearsFields he hnull))

theorem mem_orInsert {map : List (String × Value)} {key : String} {v : Value}
    {e : String × Value} (he : e ∈ map) : e ∈ orInsert map key v := by
  unfold orInsert
  split
  · exact he
  · next hnone =>
    rw [IndexMap.insert_of_get_eq_none hnone]
    exact List.mem_append_left _ he

/-- **What is relied on of the numbers of `Document::from_value`**: a document with
a number too long or of too large an exponent to be read is refused. -/
def NumbersRead (fromValue : Value → Except RegistryError Unit) : Prop :=
  ∀ document, fromValue document = .ok () → readable document = true

theorem readable_of_admitRow {fromValue : Value → Except RegistryError Unit} {v : Value}
    (hnumbers : NumbersRead fromValue) (h : admitRow fromValue v = .ok ()) :
    readable v = true := by
  obtain ⟨fields, hfields, h⟩ := bind_eq_ok.mp h
  refine readable_of_withoutClears ?_
  rw [Value.eq_object_of_asObject (orFail_eq_ok.mp hfields)]
  have hdocument := hnumbers _ h
  refine readable_object.mpr fun e he => ?_
  have hrow : readable (.object (orInsert (orInsert fields "status" (.string "active"))
      "interfaces" (.array []))) = true := by
    simp only [rowDocument, readable_object, readable_array, List.forall_mem_cons] at hdocument ⊢
    exact hdocument.2.2.2.1.2.1.1.2.2.2.1.1
  exact readable_object.mp hrow e (mem_orInsert (mem_orInsert he))

end Mapping

end BitRouter.Registry
