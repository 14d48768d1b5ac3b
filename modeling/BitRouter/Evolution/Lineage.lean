import BitRouter.Evolution.Types

/-!
# The provenance of experiments

What never changes of an experiment is its lineage: its definition, its id,
the experiment it follows and the adopted experiments its baseline rests on.
The lineages of an owner form a genealogy, which grows in two ways only. A
block *begins* with a first experiment, or its current experiment is archived
and *succeeded* by the next.

In a sound genealogy the id of an experiment determines its lineage, every name
of an experiment resolves within its block, and the ancestry of an ancestor is
the part of the ancestry before it.
-/

namespace BitRouter.Evolution

/-- What never changes of an experiment. -/
structure Lineage where
  definition : BlockDefinition
  experimentId : String
  predecessor : Option String
  ancestry : List String
  routingConfigDigest : String

def BlockState.lineage (block : BlockState) : Lineage where
  definition := block.definition
  experimentId := block.experimentId
  predecessor := block.predecessorExperimentId
  ancestry := block.baselineAncestry
  routingConfigDigest := block.routingConfigDigest

/-- An experiment whose id was made from its lineage. -/
inductive Minted (P : Primitives) (l : Lineage) : Prop
  | registered (modeEpoch : ℕ) : l.predecessor = none → l.ancestry = [] →
    l.experimentId = P.registeredId l.definition l.routingConfigDigest modeEpoch → Minted P l
  | revised (previous : String) : l.predecessor = some previous →
    l.experimentId = P.revisedId previous l.definition l.routingConfigDigest l.ancestry →
    Minted P l

variable {l' : Lineage}

/-- **The id of an experiment determines its lineage.** -/
theorem Minted.unique {P : Primitives} {l : Lineage} (h : Minted P l) (h' : Minted P l')
    (heq : l.experimentId = l'.experimentId) : l = l' := by
  obtain ⟨definition, id, predecessor, ancestry, routing⟩ := l
  obtain ⟨definition', id', predecessor', ancestry', routing'⟩ := l'
  cases h with
  | registered epoch hpred hanc hid =>
    cases h' with
    | registered epoch' hpred' hanc' hid' =>
      have hdigest := P.digest_inj.mp (hid.symm.trans (heq.trans hid'))
      injection hdigest with hrevision _
      have hdefinition := P.digest_inj.mp hrevision
      injection hdefinition with hdefinition hrouting
      simp_all
    | revised p hpred' hid' =>
      exact absurd (P.digest_inj.mp (hid.symm.trans (heq.trans hid'))) (by simp)
  | revised p hpred hid =>
    cases h' with
    | registered epoch' hpred' hanc' hid' =>
      exact absurd (P.digest_inj.mp (hid.symm.trans (heq.trans hid'))) (by simp)
    | revised p' hpred' hid' =>
      have hdigest := P.digest_inj.mp (hid.symm.trans (heq.trans hid'))
      injection hdigest with hprevious hdefinition hrouting hancestry
      simp_all

/-- The experiments of an owner: the current one of each block, and the
archived ones by their ids. -/
structure Genealogy where
  current : String → Option Lineage
  archive : String → Option Lineage

variable {a : Lineage} {e k : String}

namespace Genealogy

variable {P : Primitives} {g : Genealogy} {l prev next : Lineage}

def Has (g : Genealogy) (l : Lineage) : Prop :=
  (∃ k, g.current k = some l) ∨ ∃ k, g.archive k = some l

/-- The first experiment of a block. -/
def begun (g : Genealogy) (l : Lineage) : Genealogy :=
  { g with current := fun k => if k = l.definition.blockId then some l else g.current k }

def succeeded (g : Genealogy) (prev next : Lineage) : Genealogy where
  current k := if k = next.definition.blockId then some next else g.current k
  archive k := if k = prev.experimentId then some prev else g.archive k

theorem current_begun (k : String) :
    (g.begun l).current k = if k = l.definition.blockId then some l else g.current k := rfl

theorem current_succeeded (k : String) : (g.succeeded prev next).current k
    = if k = next.definition.blockId then some next else g.current k := rfl

theorem archive_succeeded (k : String) : (g.succeeded prev next).archive k
    = if k = prev.experimentId then some prev else g.archive k := rfl

/-- The baseline a rule inherits along an ancestry: the challenger of the last
ancestor, or the selector itself. -/
def inherited (g : Genealogy) (ancestry : List String) (rule : BlockRule) : Option String :=
  match ancestry.getLast? with
  | none => some rule.selector
  | some e => ((g.archive e).bind (·.definition.ruleOf rule.matcher)).map (·.challengerRoute)

theorem inherited_congr {ancestry : List String} {rule rule' : BlockRule}
    (h : rule.matcher = rule'.matcher) :
    g.inherited ancestry rule = g.inherited ancestry rule' := by
  have hselector : rule.selector = rule'.selector := congrArg Prod.fst h
  unfold inherited
  rw [h, hselector]

/-- The ancestor at a place of an ancestry, whose own ancestry is the part
before it. -/
def Ancestor (g : Genealogy) (l : Lineage) (i : ℕ) (e : String) : Prop :=
  ∃ a, g.archive e = some a ∧ a.definition.blockId = l.definition.blockId
    ∧ a.ancestry = l.ancestry.take i

/-- **A sound genealogy.** -/
structure Sound (P : Primitives) (g : Genealogy) : Prop where
  currentKey : ∀ k l, g.current k = some l → l.definition.blockId = k
  archiveKey : ∀ k l, g.archive k = some l → l.experimentId = k
  fresh : ∀ k l, g.current k = some l → g.archive l.experimentId = none
  owned : ∀ k l, g.archive k = some l → ∃ c, g.current l.definition.blockId = some c
    ∧ c.definition.source = l.definition.source
    ∧ c.definition.matchers = l.definition.matchers
  minted : ∀ l, g.Has l → Minted P l
  valid : ∀ l, g.Has l → l.definition.validate = .ok ()
  predecessor : ∀ l, g.Has l → ∀ p ∈ l.predecessor,
    ∃ a, g.archive p = some a ∧ a.definition.blockId = l.definition.blockId
  ranked : ∃ rank : String → ℕ, ∀ l, g.Has l → ∀ p ∈ l.predecessor,
    rank p < rank l.experimentId
  ancestry : ∀ l, g.Has l → ∀ i e, l.ancestry[i]? = some e → g.Ancestor l i e
  inherits : ∀ l, g.Has l → ∀ rule ∈ l.definition.rules,
    g.inherited l.ancestry rule = some rule.baselineRoute

/-- A genealogy without experiments. -/
theorem sound_empty : Sound P ⟨fun _ => none, fun _ => none⟩ where
  currentKey _ _ h := absurd h (by simp)
  archiveKey _ _ h := absurd h (by simp)
  fresh _ _ h := absurd h (by simp)
  owned _ _ h := absurd h (by simp)
  minted _ h := absurd h (by simp [Has])
  valid _ h := absurd h (by simp [Has])
  predecessor _ h := absurd h (by simp [Has])
  ranked := ⟨fun _ => 0, fun _ h => absurd h (by simp [Has])⟩
  ancestry _ h := absurd h (by simp [Has])
  inherits _ h := absurd h (by simp [Has])

namespace Sound

/-- **An id names one experiment.** -/
theorem eq_of_experimentId (h : g.Sound P) (hl : g.Has l) (hl' : g.Has l')
    (heq : l.experimentId = l'.experimentId) : l = l' :=
  (h.minted l hl).unique (h.minted l' hl') heq

theorem notMem_archive (h : g.Sound P) (hl : g.current k = some l) (ha : g.archive e = some a) :
    l.experimentId ≠ e := by
  rintro rfl
  exact absurd (ha.symm.trans (h.fresh k l hl)) (by simp)

theorem current_of_has (h : g.Sound P) (hl : g.Has l) :
    ∃ c, g.current l.definition.blockId = some c
      ∧ c.definition.source = l.definition.source
      ∧ c.definition.matchers = l.definition.matchers := by
  rcases hl with ⟨k, hk⟩ | ⟨k, hk⟩
  · obtain rfl := h.currentKey k l hk
    exact ⟨l, hk, rfl, rfl⟩
  · exact h.owned k l hk

theorem matchers_eq (h : g.Sound P) (hl : g.Has l) (hl' : g.Has l')
    (hblock : l.definition.blockId = l'.definition.blockId) :
    l.definition.matchers = l'.definition.matchers := by
  obtain ⟨c, hc, -, hmatchers⟩ := h.current_of_has hl
  obtain ⟨c', hc', -, hmatchers'⟩ := h.current_of_has hl'
  obtain rfl : c = c' := Option.some.inj (hc.symm.trans (hblock ▸ hc'))
  exact hmatchers.symm.trans hmatchers'

/-- An ancestor of an ancestor is an ancestor. -/
theorem ancestry_trans (h : g.Sound P) (hl : g.Has l) {e' : String} (he : e ∈ l.ancestry)
    (ha : g.archive e = some a) (he' : e' ∈ a.ancestry) :
    e' ∈ l.ancestry := by
  obtain ⟨i, hi⟩ := List.getElem?_of_mem he
  obtain ⟨a', ha', -, htake⟩ := h.ancestry l hl i e hi
  obtain rfl := Option.some.inj (ha.symm.trans ha')
  rw [htake] at he'
  exact List.mem_of_mem_take he'

/-! ## Growth -/

theorem has_begun (h : (g.begun l).Has l') : g.Has l' ∨ l' = l := by
  rcases h with ⟨k, hk⟩ | hk
  · rw [current_begun] at hk
    split at hk
    · exact Or.inr (Option.some.inj hk).symm
    · exact Or.inl (Or.inl ⟨k, hk⟩)
  · exact Or.inl (Or.inr hk)

/-- **A block begins** under a name that no block has. -/
theorem begun (h : g.Sound P) (hnew : g.current l.definition.blockId = none)
    (hvalid : l.definition.validate = .ok ()) {modeEpoch : ℕ} (hpred : l.predecessor = none)
    (hanc : l.ancestry = [])
    (hid : l.experimentId = P.registeredId l.definition l.routingConfigDigest modeEpoch)
    (hcold : ∀ rule ∈ l.definition.rules, rule.baselineRoute = rule.selector) :
    (g.begun l).Sound P := by
  have hminted : Minted P l := .registered modeEpoch hpred hanc hid
  -- an archived experiment of this id would have a current one in its block
  have hfresh : g.archive l.experimentId = none := by
    cases ha : g.archive l.experimentId with
    | none => rfl
    | some a =>
      obtain rfl := (h.minted a (Or.inr ⟨_, ha⟩)).unique hminted (h.archiveKey _ a ha)
      obtain ⟨c, hc, -⟩ := h.owned _ a ha
      exact absurd (hc.symm.trans hnew) (by simp)
  have hold : ∀ k, g.current k ≠ none → (g.begun l).current k = g.current k := by
    intro k hk
    rw [current_begun, if_neg (fun heq : k = l.definition.blockId => hk (heq ▸ hnew))]
  obtain ⟨rank, hrank⟩ := h.ranked
  refine
    { currentKey := ?_, archiveKey := h.archiveKey, fresh := ?_, owned := ?_, minted := ?_,
      valid := ?_, predecessor := ?_, ranked := ⟨rank, ?_⟩, ancestry := ?_, inherits := ?_ }
  · intro k l' hk
    rw [current_begun] at hk
    split at hk
    · next heq => rw [← Option.some.inj hk, heq]
    · exact h.currentKey k l' hk
  · intro k l' hk
    rw [current_begun] at hk
    split at hk
    · exact Option.some.inj hk ▸ hfresh
    · exact h.fresh k l' hk
  · intro k a ha
    obtain ⟨c, hc, hsame⟩ := h.owned k a ha
    exact ⟨c, (hold _ (by simp [hc])).trans hc, hsame⟩
  · intro l' hl'
    rcases has_begun hl' with hl' | rfl
    · exact h.minted l' hl'
    · exact hminted
  · intro l' hl'
    rcases has_begun hl' with hl' | rfl
    · exact h.valid l' hl'
    · exact hvalid
  · intro l' hl' p hp
    rcases has_begun hl' with hl' | rfl
    · exact h.predecessor l' hl' p hp
    · exact absurd hp (by simp [hpred])
  · intro l' hl' p hp
    rcases has_begun hl' with hl' | rfl
    · exact hrank l' hl' p hp
    · exact absurd hp (by simp [hpred])
  · intro l' hl' i e hi
    rcases has_begun hl' with hl' | rfl
    · exact h.ancestry l' hl' i e hi
    · exact absurd hi (by simp [hanc])
  · intro l' hl' rule hrule
    rcases has_begun hl' with hl' | rfl
    · exact h.inherits l' hl' rule hrule
    · rw [hcold rule hrule, hanc]
      rfl

/-- A lineage of a block that has been revised is an old one or the next one. -/
theorem has_succeeded (hprev : g.Has prev) (h : (g.succeeded prev next).Has l') :
    g.Has l' ∨ l' = next := by
  rcases h with ⟨k, hk⟩ | ⟨k, hk⟩
  · rw [current_succeeded] at hk
    split at hk
    · exact Or.inr (Option.some.inj hk).symm
    · exact Or.inl (Or.inl ⟨k, hk⟩)
  · rw [archive_succeeded] at hk
    split at hk
    · exact Or.inl (Option.some.inj hk ▸ hprev)
    · exact Or.inl (Or.inr ⟨k, hk⟩)

theorem archive_mono (h : g.Sound P) (hprev : g.current k = some prev) (ha : g.archive e = some a) :
    (g.succeeded prev next).archive e = some a := by
  rw [archive_succeeded, if_neg (fun heq => h.notMem_archive hprev ha heq.symm)]
  exact ha

/-- What was inherited stays inherited. -/
theorem inherited_mono (h : g.Sound P) (hprev : g.current k = some prev) {ancestry : List String}
    {rule : BlockRule} {route : String} (hroute : g.inherited ancestry rule = some route) :
    (g.succeeded prev next).inherited ancestry rule = some route := by
  unfold inherited at hroute ⊢
  cases hlast : ancestry.getLast? with
  | none =>
    rw [hlast] at hroute
    exact hroute
  | some e =>
    rw [hlast] at hroute
    dsimp only at hroute ⊢
    cases ha : g.archive e with
    | none =>
      rw [ha] at hroute
      exact absurd hroute (by simp)
    | some a =>
      rw [ha] at hroute
      rw [h.archive_mono hprev ha]
      exact hroute

/-- **A block is revised**: its current experiment is archived, and the next one
rests on archived experiments. -/
theorem succeeded (h : g.Sound P) (hprev : g.current next.definition.blockId = some prev)
    (hvalid : next.definition.validate = .ok ())
    (hsource : next.definition.source = prev.definition.source)
    (hmatchers : next.definition.matchers = prev.definition.matchers)
    (hpred : next.predecessor = some prev.experimentId)
    (hid : next.experimentId = P.revisedId prev.experimentId next.definition
      next.routingConfigDigest next.ancestry) (hnew : g.archive next.experimentId = none)
    (hancestry : ∀ i e, next.ancestry[i]? = some e → (g.succeeded prev next).Ancestor next i e)
    (hinherits : ∀ rule ∈ next.definition.rules,
      (g.succeeded prev next).inherited next.ancestry rule = some rule.baselineRoute) :
    (g.succeeded prev next).Sound P := by
  have hhas : g.Has prev := Or.inl ⟨_, hprev⟩
  have hblock : prev.definition.blockId = next.definition.blockId := h.currentKey _ _ hprev
  have hminted : Minted P next := .revised prev.experimentId hpred hid
  -- the id is new: an experiment that had it would follow `prev`, which is not archived
  have hunused : ∀ l, g.Has l → l.experimentId ≠ next.experimentId := by
    intro l hl heq
    obtain rfl := (h.minted l hl).unique hminted heq
    obtain ⟨a, ha, -⟩ := h.predecessor l hl prev.experimentId hpred
    exact h.notMem_archive hprev ha rfl
  have hlookup : ∀ l, (g.succeeded prev next).Has l → g.Has l ∨ l = next :=
    fun l hl => has_succeeded hhas hl
  have hself : (g.succeeded prev next).archive prev.experimentId = some prev := if_pos rfl
  obtain ⟨rank, hrank⟩ := h.ranked
  refine
    { currentKey := ?_, archiveKey := ?_, fresh := ?_, owned := ?_, minted := ?_, valid := ?_,
      predecessor := ?_,
      ranked := ⟨fun e => if e = next.experimentId then rank prev.experimentId + 1 else rank e, ?_⟩,
      ancestry := ?_, inherits := ?_ }
  · intro k l hk
    rw [current_succeeded] at hk
    split at hk
    · next heq => rw [← Option.some.inj hk, heq]
    · exact h.currentKey k l hk
  · intro k l hk
    rw [archive_succeeded] at hk
    split at hk
    · next heq => rw [← Option.some.inj hk, heq]
    · exact h.archiveKey k l hk
  · intro k l hk
    rw [archive_succeeded]
    rw [current_succeeded] at hk
    split at hk
    · obtain rfl := Option.some.inj hk
      rw [if_neg (hunused prev hhas).symm]
      exact hnew
    · next hother =>
      -- another block's current experiment is not the one archived now
      have hne : l.experimentId ≠ prev.experimentId := by
        intro heq
        obtain rfl := h.eq_of_experimentId (Or.inl ⟨k, hk⟩) hhas heq
        exact hother ((h.currentKey k l hk).symm.trans hblock)
      rw [if_neg hne]
      exact h.fresh k l hk
  · intro k l hk
    rw [archive_succeeded] at hk
    have hcurrent : (g.succeeded prev next).current next.definition.blockId = some next :=
      if_pos rfl
    split at hk
    · obtain rfl := Option.some.inj hk
      rw [hblock]
      exact ⟨next, hcurrent, hsource, hmatchers⟩
    · obtain ⟨c, hc, hs, hm⟩ := h.owned k l hk
      by_cases heq : l.definition.blockId = next.definition.blockId
      · rw [heq] at hc ⊢
        obtain rfl := Option.some.inj (hc.symm.trans hprev)
        exact ⟨next, hcurrent, hsource.trans hs, hmatchers.trans hm⟩
      · refine ⟨c, ?_, hs, hm⟩
        rw [current_succeeded, if_neg heq]
        exact hc
  · intro l hl
    rcases hlookup l hl with hl | rfl
    · exact h.minted l hl
    · exact hminted
  · intro l hl
    rcases hlookup l hl with hl | rfl
    · exact h.valid l hl
    · exact hvalid
  · intro l hl p hp
    rcases hlookup l hl with hl | rfl
    · obtain ⟨a, ha, hsame⟩ := h.predecessor l hl p hp
      exact ⟨a, h.archive_mono hprev ha, hsame⟩
    · obtain rfl := Option.some.inj (hpred.symm.trans hp)
      exact ⟨prev, hself, hblock⟩
  · intro l hl p hp
    dsimp only
    rcases hlookup l hl with hl | rfl
    · obtain ⟨a, ha, -⟩ := h.predecessor l hl p hp
      have hne : p ≠ next.experimentId := by
        rintro rfl
        exact absurd (ha.symm.trans hnew) (by simp)
      rw [if_neg hne, if_neg (hunused l hl)]
      exact hrank l hl p hp
    · obtain rfl := Option.some.inj (hpred.symm.trans hp)
      rw [if_neg (hunused prev hhas), if_pos rfl]
      exact Nat.lt_succ_self _
  · intro l hl i e hi
    rcases hlookup l hl with hl | rfl
    · obtain ⟨a, ha, hsame⟩ := h.ancestry l hl i e hi
      exact ⟨a, h.archive_mono hprev ha, hsame⟩
    · exact hancestry i e hi
  · intro l hl rule hrule
    rcases hlookup l hl with hl | rfl
    · exact h.inherited_mono hprev (h.inherits l hl rule hrule)
    · exact hinherits rule hrule

end Sound

end Genealogy

end BitRouter.Evolution
