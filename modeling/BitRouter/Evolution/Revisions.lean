import BitRouter.Evolution.Descent

/-!
# Revisions never return

The revision of a block is digested from the one before, so that a revision
once left is never taken again. What other blocks have recorded of it is
therefore current, or lies behind for good.
-/

namespace BitRouter.Evolution

open ControlState

variable {P : Primitives} {s s' : ControlState} {b next : BlockState} {r r' : String}

/-! ## Chains of revisions -/

/-- A revision reached in `n` advances. -/
inductive RevisionOf (P : Primitives) : ℕ → String → Prop
  | first (definition : BlockDefinition) (configDigest : String) :
    RevisionOf P 0 (P.digest (.definition definition configDigest))
  | advance {n : ℕ} {r : String} (action detail : String) :
    RevisionOf P n r → RevisionOf P (n + 1) (P.digest (.triple r action detail))

variable {n : ℕ}

theorem RevisionOf.unique {m : ℕ} (hm : RevisionOf P m r) (hn : RevisionOf P n r) : m = n := by
  induction hm generalizing n with
  | first definition configDigest =>
    generalize heq : P.digest (.definition definition configDigest) = r at hn
    cases hn with
    | first _ _ => rfl
    | advance _ _ _ => exact absurd (P.digest_inj.mp heq) (by simp)
  | @advance m r action detail hm ih =>
    generalize heq : P.digest (.triple r action detail) = r' at hn
    cases hn with
    | first _ _ => exact absurd (P.digest_inj.mp heq) (by simp)
    | @advance n r₀ _ _ hn =>
      have hinj := P.digest_inj.mp heq
      injection hinj with hprevious _ _
      rw [ih (hprevious ▸ hn)]

/-- A revision that is `r`, or was advanced from it. -/
inductive Later (P : Primitives) (r : String) : String → Prop
  | refl : Later P r r
  | advance {r' : String} (action detail : String) : Later P r r' →
    Later P r (P.digest (.triple r' action detail))

namespace Later

theorem trans {r'' : String} (h : Later P r r') (h' : Later P r' r'') : Later P r r'' := by
  induction h' with
  | refl => exact h
  | advance action detail _ ih => exact .advance action detail ih

theorem height (h : Later P r r') (hn : RevisionOf P n r') :
    ∃ m ≤ n, RevisionOf P m r ∧ (m = n → r = r') := by
  induction h generalizing n with
  | refl => exact ⟨n, Nat.le_refl n, hn, fun _ => rfl⟩
  | @advance r₁ action detail _ ih =>
    generalize heq : P.digest (.triple r₁ action detail) = r₂ at hn
    cases hn with
    | first _ _ => exact absurd (P.digest_inj.mp heq) (by simp)
    | @advance n r₀ _ _ hn =>
      have hinj := P.digest_inj.mp heq
      injection hinj with hprevious _ _
      obtain ⟨m, hle, hm, -⟩ := ih (hprevious ▸ hn)
      exact ⟨m, hle.trans (Nat.le_succ n), hm, fun hmn => absurd hle (by omega)⟩

/-- **Nothing returns to a revision it has left.** -/
theorem antisymm (hn : RevisionOf P n r') (h : Later P r r') (h' : Later P r' r) :
    r = r' := by
  obtain ⟨m, hle, hm, heq⟩ := h.height hn
  obtain ⟨n', hle', hn', -⟩ := h'.height hm
  obtain rfl := hn'.unique hn
  exact heq (Nat.le_antisymm hle hle')

/-- **No advance leads back to where it came from.** -/
theorem ne_advance (hn : RevisionOf P n r) (h : Later P r r') (action detail : String) :
    P.digest (.triple r' action detail) ≠ r := by
  intro heq
  generalize hdigest : P.digest (.triple r' action detail) = r₁ at heq
  subst heq
  cases hn with
  | first _ _ => exact absurd (P.digest_inj.mp hdigest) (by simp)
  | @advance n r₀ action' detail' hr₀ =>
    have hinj := P.digest_inj.mp hdigest
    injection hinj with hprevious _ _
    obtain ⟨m, hle, hm, -⟩ := h.height (hprevious ▸ hr₀)
    have hsame := hm.unique (.advance action' detail' hr₀)
    omega

end Later

/-! ## What a step does to the revision of a block -/

theorem Later.withdrawal (withdrawn : String) (b : BlockState) :
    Later P b.revision (withdrawal P withdrawn b).revision := by
  unfold BitRouter.Evolution.withdrawal
  split
  · exact .advance _ _ .refl
  · exact .refl

variable {x : BlockState}

section

variable (h : s.genealogy.Sound P) (ht : Transition P s s' b next) (hx : x ∈ s.experiments)

include h ht hx

theorem Transition.rewriteAt_later :
    Later P x.revision (rewriteAt b.experimentId (fun _ => next) x).revision := by
  unfold rewriteAt
  split
  · next heq =>
    rw [eq_of_experimentId h hx ht.mem heq]
    rcases ht.revision with ⟨hsame, -⟩ | ⟨action, detail, hadvance⟩
    · exact hsame ▸ .refl
    · exact hadvance ▸ .advance _ _ .refl
  · exact .refl

theorem Transition.later :
    Later P x.revision (became P b next x).revision := by
  have hat := ht.rewriteAt_later h hx
  unfold became
  split
  · exact hat.trans (.withdrawal _ _)
  · exact hat

theorem Transition.status_of_revision (hn : RevisionOf P n x.revision)
    (hrevision : (became P b next x).revision = x.revision) :
    (became P b next x).status = x.status := by
  have hat : (rewriteAt b.experimentId (fun _ => next) x).revision = x.revision →
      (rewriteAt b.experimentId (fun _ => next) x).status = x.status := by
    unfold rewriteAt
    split
    · next heq =>
      obtain rfl := eq_of_experimentId h hx ht.mem heq
      intro hsame
      rcases ht.revision with ⟨-, hstatus⟩ | ⟨action, detail, hadvance⟩
      · exact hstatus
      · exact absurd (hadvance.symm.trans hsame) (Later.refl.ne_advance hn action detail)
    · exact fun _ => rfl
  unfold became withdrawal at hrevision ⊢
  split
  · next hnext =>
    rw [if_pos hnext] at hrevision
    split
    · next hbuilt =>
      rw [if_pos hbuilt] at hrevision
      exact absurd hrevision ((ht.rewriteAt_later h hx).ne_advance hn _ _)
    · next hbuilt =>
      rw [if_neg hbuilt] at hrevision
      exact hat hrevision
  · next hnext =>
    rw [if_neg hnext] at hrevision
    exact hat hrevision

end

theorem Revised.later {previous baseline : BlockState} {definition : BlockDefinition}
    {routingDigest : String} {reset : Bool} {passed : List String}
    (hr : Revised P s s' previous definition routingDigest reset baseline passed next) :
    Later P previous.revision next.revision := by
  rw [hr.next_eq]
  show Later P _ (s.revisedRevision P previous _ reset)
  unfold revisedRevision
  split
  · exact .advance _ _ .refl
  · exact .refl

/-- **Every block keeps its place, its revision the same or advanced.** -/
theorem Step.later (h : s.genealogy.Sound P) (hstep : Step P s s') {k : String}
    (hk : s.blocks[k]? = some b) :
    ∃ b', s'.blocks[k]? = some b' ∧ b'.definition.source = b.definition.source
      ∧ b'.definition.matchers = b.definition.matchers ∧ Later P b.revision b'.revision := by
  have hof : ∀ {x x' : BlockState}, x'.lineage = x.lineage →
      x'.definition.source = x.definition.source
        ∧ x'.definition.matchers = x.definition.matchers := by
    intro x x' hl
    have hdefinition : x'.definition = x.definition := congrArg (·.definition) hl
    rw [hdefinition]
    exact ⟨rfl, rfl⟩
  cases hstep.effect h with
  | drawn hdrawn =>
    obtain ⟨f, hf, hdrawn⟩ := hdrawn
    have hb := hdrawn b (mem_of_blocks hk)
    refine ⟨f b, by rw [hf.blocks, hk]; rfl, (hof hb.lineage).1, (hof hb.lineage).2, ?_⟩
    exact hb.revision ▸ .refl
  | transition x next ht =>
    have hl := ht.became_lineage h (mem_of_blocks hk)
    exact ⟨became P x next b, by rw [ht.rewrites.blocks, hk]; rfl, (hof hl).1, (hof hl).2,
      ht.later h (mem_of_blocks hk)⟩
  | registered definition configDigest hr =>
    refine ⟨b, ?_, rfl, rfl, .refl⟩
    rw [hr.blocks, StrMap.getElem?_insert, if_neg]
    · exact hk
    · rintro rfl
      exact absurd (hk.symm.trans hr.new) (by simp)
  | revised previous baseline next definition routingDigest reset passed hr =>
    by_cases heq : definition.blockId = k
    · subst heq
      obtain rfl := Option.some.inj (hk.symm.trans hr.current)
      refine ⟨next, by rw [hr.blocks, StrMap.getElem?_insert, if_pos rfl], ?_, ?_, hr.later⟩
      · rw [hr.next_eq]
        exact hr.source
      · rw [hr.next_eq]
        exact hr.matchers
    · refine ⟨b, ?_, rfl, rfl, .refl⟩
      rw [hr.blocks, StrMap.getElem?_insert, if_neg heq]
      exact hk

/-! ## Recorded revisions -/

/-- **What experiments have recorded of other blocks is what these are at, or
have left.** -/
structure ControlState.Dated (P : Primitives) (s : ControlState) : Prop where
  chain : ∀ (k : String) b, s.blocks[k]? = some b → ∃ n, RevisionOf P n b.revision
  recorded : ∀ x ∈ s.experiments, ∀ dependency ∈ x.definition.dependencies,
    ∃ b, s.blocks[dependency.1]? = some b ∧ Later P dependency.2 b.revision

theorem RevisionOf.later (h : RevisionOf P n r) (hlater : Later P r r') :
    ∃ m, RevisionOf P m r' := by
  induction hlater with
  | refl => exact ⟨n, h⟩
  | advance action detail _ ih =>
    obtain ⟨m, hm⟩ := ih
    exact ⟨m + 1, .advance action detail hm⟩

theorem dependenciesAvailable_recorded {definition : BlockDefinition}
    (h : s.dependenciesAvailable definition) {dependency : String × String}
    (hmem : dependency ∈ definition.dependencies) :
    ∃ b, s.blocks[dependency.1]? = some b ∧ b.revision = dependency.2 := by
  obtain ⟨b, hb, heq⟩ := (Option.any_eq_true _ _).mp (h dependency hmem)
  exact ⟨b, hb, of_decide_eq_true heq⟩

namespace ControlState.Dated

theorem default : ControlState.default.Dated P where
  chain k b hb := absurd ((StrMap.getElem?_empty k).symm.trans hb) (by simp)
  recorded x hx := by
    rcases mem_experiments.mp hx with ⟨k, hk⟩ | ⟨k, a, hk, -⟩
    · exact absurd ((StrMap.getElem?_empty k).symm.trans hk) (by simp)
    · exact absurd ((StrMap.getElem?_empty k).symm.trans hk) (by simp)

theorem step (hsound : s.Sound P) (h : s.Dated P) (hstep : Step P s s') : s'.Dated P := by
  -- what was recorded before stays recorded
  have hold : ∀ x ∈ s.experiments, ∀ dependency ∈ x.definition.dependencies,
      ∃ b, s'.blocks[dependency.1]? = some b ∧ Later P dependency.2 b.revision := by
    intro x hx dependency hmem
    obtain ⟨b, hb, hlater⟩ := h.recorded x hx dependency hmem
    obtain ⟨b', hb', -, -, hlater'⟩ := hstep.later hsound.genealogy hb
    exact ⟨b', hb', hlater.trans hlater'⟩
  have hnew : ∀ definition, s.dependenciesAvailable definition →
      ∀ dependency ∈ definition.dependencies,
        ∃ b, s'.blocks[dependency.1]? = some b ∧ Later P dependency.2 b.revision := by
    intro definition havailable dependency hmem
    obtain ⟨b, hb, heq⟩ := dependenciesAvailable_recorded havailable hmem
    obtain ⟨b', hb', -, -, hlater⟩ := hstep.later hsound.genealogy hb
    exact ⟨b', hb', heq ▸ hlater⟩
  constructor
  · intro k b' hb'
    cases hk : s.blocks[k]? with
    | some b =>
      obtain ⟨b'', hb'', -, -, hlater⟩ := hstep.later hsound.genealogy hk
      obtain rfl := Option.some.inj (hb'.symm.trans hb'')
      obtain ⟨n, hn⟩ := h.chain k b hk
      exact hn.later hlater
    | none =>
      cases hstep.effect hsound.genealogy with
      | drawn hdrawn =>
        obtain ⟨f, hf, -⟩ := hdrawn
        rw [hf.blocks, hk] at hb'
        exact absurd hb' (by simp)
      | transition x next ht =>
        rw [ht.rewrites.blocks, hk] at hb'
        exact absurd hb' (by simp)
      | registered definition configDigest hr =>
        rw [hr.blocks, StrMap.getElem?_insert] at hb'
        split at hb'
        · obtain rfl := Option.some.inj hb'
          exact ⟨0, .first _ _⟩
        · exact absurd (hb'.symm.trans hk) (by simp)
      | revised previous baseline next definition routingDigest reset passed hr =>
        rw [hr.blocks, StrMap.getElem?_insert] at hb'
        split at hb'
        · next heq =>
          subst heq
          exact absurd (hk.symm.trans hr.current) (by simp)
        · exact absurd (hb'.symm.trans hk) (by simp)
  · intro x' hx'
    cases hstep.effect hsound.genealogy with
    | drawn hdrawn =>
      obtain ⟨f, hf, hdrawn⟩ := hdrawn
      obtain ⟨x, hx, rfl⟩ := hf.mem_iff.mp hx'
      have hdefinition : (f x).definition = x.definition :=
        congrArg (·.definition) (hdrawn x hx).lineage
      rw [hdefinition]
      exact hold x hx
    | transition y next ht =>
      obtain ⟨x, hx, rfl⟩ := ht.rewrites.mem_iff.mp hx'
      have hdefinition : (became P y next x).definition = x.definition :=
        congrArg (·.definition) (ht.became_lineage hsound.genealogy hx)
      rw [hdefinition]
      exact hold x hx
    | registered definition configDigest hr =>
      rcases hr.mem_iff.mp hx' with hx | rfl
      · exact hold x' hx
      · exact hnew definition hr.available
    | revised previous baseline next definition routingDigest reset passed hr =>
      rcases (hr.mem_iff hsound.genealogy).mp hx' with hx | rfl
      · exact hold x' hx
      · rw [hr.next_eq]
        exact hnew definition hr.available

end ControlState.Dated

theorem Reachable.dated (h : Reachable P s) : s.Dated P := by
  induction h with
  | refl => exact .default
  | tail hreach hstep ih => exact ih.step (Reachable.sound hreach) hstep

end BitRouter.Evolution
