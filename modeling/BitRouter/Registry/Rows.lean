import BitRouter.Registry.Normalize

/-!
# Normalized rows

A row that `normalize` composes is well formed: no object of it has two
members of one name, from the reviewed defaults on through every write.
-/

namespace BitRouter.Registry.Mapping

/-! ## Writes -/

theorem childOf_cases {map : List (String × Value)} {head : String} {child : Value}
    (h : childOf map head = .ok child) :
    IndexMap.get map head = some child
      ∨ (IndexMap.get map head = none ∧ head ≠ "interfaces" ∧ child = .object []) := by
  unfold childOf at h
  split at h
  · rename_i hget
    exact Or.inl (hget.trans (congrArg some (Except.ok.inj h)))
  · rename_i hget
    split at h
    · simp at h
    · rename_i hne
      exact Or.inr ⟨hget, hne, (Except.ok.inj h).symm⟩

/-! ## Well-formedness through a normalization -/

theorem wellFormed_readTokens {v w : Value} {path : List String} (hv : v.wellFormed = true)
    (h : readTokens v path = .ok (some w)) : w.wellFormed = true := by
  induction path generalizing v with
  | nil =>
    exact Option.some.inj (Except.ok.inj h) ▸ hv
  | cons t ts ih =>
    cases v with
    | object map =>
      rw [readTokens] at h
      split at h
      · rename_i child hget
        exact ih (Value.wellFormed_of_get hv hget) h
      · simp at h
    | array items =>
      obtain ⟨i, -, h⟩ := bind_eq_ok.mp h
      split at h
      · rename_i child hget
        exact ih (Value.wellFormed_array.mp hv child (List.mem_of_getElem? hget)) h
      · simp at h
    | _ => simp [readTokens] at h

theorem wellFormed_childOf {map : List (String × Value)} {head : String} {child : Value}
    (hmap : (Value.object map).wellFormed = true) (h : childOf map head = .ok child) :
    child.wellFormed = true := by
  rcases childOf_cases h with hget | ⟨-, -, rfl⟩
  · exact Value.wellFormed_of_get hmap hget
  · rfl

theorem wellFormed_writeParts {v w v' : Value} {path : List String} (hv : v.wellFormed = true)
    (hw : w.wellFormed = true) (h : writeParts v path w = .ok v') : v'.wellFormed = true := by
  induction path generalizing v v' with
  | nil => simp [writeParts] at h
  | cons t ts ih =>
    cases v with
    | object map =>
      cases ts with
      | nil =>
        exact Except.ok.inj h ▸ Value.wellFormed_insertField hv hw
      | cons t' ts =>
        obtain ⟨child, hchild, h⟩ := bind_eq_ok.mp h
        obtain ⟨child', hwrite, h⟩ := bind_eq_ok.mp h
        rw [← pure_eq_ok.mp h]
        exact Value.wellFormed_insertField hv (ih (wellFormed_childOf hv hchild) hwrite)
    | array items =>
      rw [writeParts] at h
      obtain ⟨i, -, h⟩ := bind_eq_ok.mp h
      obtain ⟨child, hchild, h⟩ := bind_eq_ok.mp h
      rw [orFail_eq_ok] at hchild
      have hitems := Value.wellFormed_array.mp hv
      have hset : ∀ new : Value, new.wellFormed = true →
          (Value.array (items.set i new)).wellFormed = true := by
        intro new hnew
        rw [Value.wellFormed_array]
        intro x hx
        rcases List.mem_or_eq_of_mem_set hx with hx | rfl
        · exact hitems x hx
        · exact hnew
      cases ts with
      | nil => exact pure_eq_ok.mp h ▸ hset w hw
      | cons t' ts =>
        obtain ⟨child', hwrite, h⟩ := bind_eq_ok.mp h
        rw [← pure_eq_ok.mp h]
        exact hset child' (ih (hitems child (List.mem_of_getElem? hchild)) hwrite)
    | _ => simp [writeParts] at h

theorem wellFormed_number {q : ℚ} {v : Value} (h : number q = .ok v) : v.wellFormed = true := by
  obtain ⟨_, -, h⟩ := bind_eq_ok.mp h
  dsimp only at h
  split at h
  · obtain ⟨_, -, h⟩ := bind_eq_ok.mp h
    exact pure_eq_ok.mp h ▸ rfl
  · obtain ⟨_, -, h⟩ := bind_eq_ok.mp h
    exact pure_eq_ok.mp h ▸ rfl

theorem wellFormed_transformStep {value step out : Value} (hstep : step.wellFormed = true)
    (h : transformStep value step = .ok out) : out.wellFormed = true := by
  unfold transformStep at h
  split at h
  · obtain ⟨_, -, h⟩ := bind_eq_ok.mp h
    obtain ⟨_, -, h⟩ := bind_eq_ok.mp h
    exact pure_eq_ok.mp h ▸ rfl
  · obtain ⟨_, -, h⟩ := bind_eq_ok.mp h
    exact pure_eq_ok.mp h ▸ rfl
  · obtain ⟨_, -, h⟩ := bind_eq_ok.mp h
    obtain ⟨_, -, h⟩ := bind_eq_ok.mp h
    exact wellFormed_number h
  · obtain ⟨_, -, h⟩ := bind_eq_ok.mp h
    obtain ⟨_, -, h⟩ := bind_eq_ok.mp h
    obtain ⟨_, -, h⟩ := bind_eq_ok.mp h
    exact wellFormed_number h
  · obtain ⟨row, hrow, h⟩ := bind_eq_ok.mp h
    rw [orFail_eq_ok] at hrow
    obtain ⟨rows, hrows, hfind⟩ := Option.bind_eq_some_iff.mp hrow
    have hvalues := Value.wellFormed_getElem hstep "values"
    rw [Value.eq_array_of_asArray hrows, Value.wellFormed_array] at hvalues
    rw [← pure_eq_ok.mp h]
    exact Value.wellFormed_getElem (hvalues row (List.mem_of_find?_eq_some hfind)) "to"
  · simp at h

theorem wellFormed_transformed {value out : Value} {steps : Option Value}
    (hvalue : value.wellFormed = true) (hsteps : ∀ v, steps = some v → v.wellFormed = true)
    (h : transformed value steps = .ok out) : out.wellFormed = true := by
  unfold transformed at h
  split at h
  · exact Except.ok.inj h ▸ rfl
  · split at h
    · exact Except.ok.inj h ▸ hvalue
    · rename_i items hitems
      obtain ⟨v, hv, hitems⟩ := Option.bind_eq_some_iff.mp hitems
      have hwf := hsteps v hv
      rw [Value.eq_array_of_asArray hitems, Value.wellFormed_array] at hwf
      exact foldlM_ok_preserves (P := fun v => v.wellFormed = true)
        (fun s x s' hx _ hstep => wellFormed_transformStep (hwf x hx) hstep) hvalue h

end BitRouter.Registry.Mapping
