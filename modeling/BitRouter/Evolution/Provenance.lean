import BitRouter.Evolution.Lineage
import BitRouter.Evolution.Selection

/-!
# Control states and their genealogies

A control state has a genealogy, and in a state whose genealogy is sound an
experiment is found by its id alone. Most operations rewrite experiments in
place: one of them, and those built on it when it is withdrawn. Such a
rewriting leaves the genealogy as it is.
-/

namespace BitRouter.Evolution

variable {a : ArchivedExperiment} {k : String}

namespace ControlState

def genealogy (s : ControlState) : Genealogy where
  current k := s.blocks[k]?.map (·.lineage)
  archive k := s.archivedExperiments[k]?.map (·.block.lineage)

variable {P : Primitives} {s s' s'' : ControlState} {b b' : BlockState}

theorem current_of_blocks (h : s.blocks[k]? = some b) :
    s.genealogy.current k = some b.lineage := by
  show s.blocks[k]?.map _ = _
  rw [h]
  rfl

theorem archive_of_archived (h : s.archivedExperiments[k]? = some a) :
    s.genealogy.archive k = some a.block.lineage := by
  show s.archivedExperiments[k]?.map _ = _
  rw [h]
  rfl

theorem mem_experiments : b ∈ s.experiments ↔ (∃ k : String, s.blocks[k]? = some b)
    ∨ ∃ (k : String) (a : ArchivedExperiment), s.archivedExperiments[k]? = some a
      ∧ a.block = b := by
  unfold experiments
  rw [List.mem_append, List.mem_map, List.mem_map]
  refine or_congr ⟨?_, ?_⟩ ⟨?_, ?_⟩
  · rintro ⟨⟨k, b⟩, hmem, rfl⟩
    exact ⟨k, Std.ExtTreeMap.mem_toList_iff_getElem?_eq_some.mp hmem⟩
  · rintro ⟨k, hk⟩
    exact ⟨(k, b), Std.ExtTreeMap.mem_toList_iff_getElem?_eq_some.mpr hk, rfl⟩
  · rintro ⟨⟨k, a⟩, hmem, rfl⟩
    exact ⟨k, a, Std.ExtTreeMap.mem_toList_iff_getElem?_eq_some.mp hmem, rfl⟩
  · rintro ⟨k, a, hk, rfl⟩
    exact ⟨(k, a), Std.ExtTreeMap.mem_toList_iff_getElem?_eq_some.mpr hk, rfl⟩

theorem mem_of_blocks (h : s.blocks[k]? = some b) : b ∈ s.experiments :=
  mem_experiments.mpr (Or.inl ⟨k, h⟩)

theorem mem_of_archived (h : s.archivedExperiments[k]? = some a) : a.block ∈ s.experiments :=
  mem_experiments.mpr (Or.inr ⟨k, a, h, rfl⟩)

theorem has_lineage (h : b ∈ s.experiments) : s.genealogy.Has b.lineage := by
  rcases mem_experiments.mp h with ⟨k, hk⟩ | ⟨k, a, hk, rfl⟩
  · exact Or.inl ⟨k, current_of_blocks hk⟩
  · exact Or.inr ⟨k, archive_of_archived hk⟩

theorem exists_of_archive {l : Lineage} (h : s.genealogy.archive k = some l) :
    ∃ a, s.archivedExperiments[k]? = some a ∧ a.block.lineage = l :=
  Option.map_eq_some_iff.mp h

theorem exists_of_current {l : Lineage} (h : s.genealogy.current k = some l) :
    ∃ b, s.blocks[k]? = some b ∧ b.lineage = l :=
  Option.map_eq_some_iff.mp h

/-! ## Finding an experiment -/

section Sound

variable (h : s.genealogy.Sound P)

include h

theorem blockId_of_blocks (hk : s.blocks[k]? = some b) :
    b.definition.blockId = k :=
  h.currentKey k b.lineage (current_of_blocks hk)

theorem experimentId_of_archived (hk : s.archivedExperiments[k]? = some a) :
    a.block.experimentId = k :=
  h.archiveKey k a.block.lineage (archive_of_archived hk)

theorem archived_eq_none (hk : s.blocks[k]? = some b) :
    s.archivedExperiments[b.experimentId]? = none :=
  Option.map_eq_none_iff.mp (h.fresh k b.lineage (current_of_blocks hk))

/-- **An id names one experiment of the state.** -/
theorem eq_of_experimentId (hb : b ∈ s.experiments) (hb' : b' ∈ s.experiments)
    (heq : b.experimentId = b'.experimentId) : b = b' := by
  have hlineage : b.lineage = b'.lineage :=
    h.eq_of_experimentId (has_lineage hb) (has_lineage hb') heq
  have hblock : b.definition.blockId = b'.definition.blockId :=
    congrArg (·.definition.blockId) hlineage
  rcases mem_experiments.mp hb with ⟨k, hk⟩ | ⟨k, a, hk, rfl⟩ <;>
    rcases mem_experiments.mp hb' with ⟨k', hk'⟩ | ⟨k', a', hk', rfl⟩
  · obtain rfl := blockId_of_blocks h hk
    obtain rfl := blockId_of_blocks h hk'
    rw [hblock, hk'] at hk
    exact (Option.some.inj hk).symm
  · have hnone := archived_eq_none h hk
    rw [heq, experimentId_of_archived h hk', hk'] at hnone
    exact absurd hnone (by simp)
  · have hnone := archived_eq_none h hk'
    rw [← heq, experimentId_of_archived h hk, hk] at hnone
    exact absurd hnone (by simp)
  · obtain rfl := experimentId_of_archived h hk
    obtain rfl := experimentId_of_archived h hk'
    rw [heq, hk'] at hk
    rw [Option.some.inj hk]

theorem experimentMut_eq_some {id e : String} : s.experimentMut id e = some b
    ↔ b ∈ s.experiments ∧ b.definition.blockId = id ∧ b.experimentId = e := by
  unfold experimentMut
  constructor
  · intro hb
    have harchived : (s.archivedExperiments[e]?.map (·.block)).filter
        (·.definition.blockId = id) = some b →
        b ∈ s.experiments ∧ b.definition.blockId = id ∧ b.experimentId = e := by
      intro hfound
      obtain ⟨hmap, hid⟩ := Option.filter_eq_some_iff.mp hfound
      obtain ⟨a, ha, rfl⟩ := Option.map_eq_some_iff.mp hmap
      exact ⟨mem_of_archived ha, of_decide_eq_true hid, experimentId_of_archived h ha⟩
    cases hcurrent : s.blocks[id]? with
    | none =>
      rw [hcurrent] at hb
      exact harchived hb
    | some c =>
      rw [hcurrent] at hb
      dsimp only at hb
      split at hb
      · next he =>
        obtain rfl := Option.some.inj hb
        exact ⟨mem_of_blocks hcurrent, blockId_of_blocks h hcurrent, he⟩
      · exact harchived hb
  · rintro ⟨hb, rfl, rfl⟩
    rcases mem_experiments.mp hb with ⟨k, hk⟩ | ⟨k, a, hk, rfl⟩
    · obtain rfl := blockId_of_blocks h hk
      rw [hk]
      exact if_pos rfl
    · obtain rfl := experimentId_of_archived h hk
      have hfound : (s.archivedExperiments[a.block.experimentId]?.map (·.block)).filter
          (·.definition.blockId = a.block.definition.blockId) = some a.block := by
        rw [hk]
        simp
      cases hcurrent : s.blocks[a.block.definition.blockId]? with
      | none => exact hfound
      | some c =>
        have hne : c.experimentId ≠ a.block.experimentId := by
          intro heq
          have hnone := archived_eq_none h hcurrent
          rw [heq, hk] at hnone
          exact absurd hnone (by simp)
        dsimp only
        rw [if_neg hne]
        exact hfound

/-- Reading an experiment finds what a mutation would. -/
theorem experiment_eq_some {id e : String} : s.experiment id (some e) = some b
    ↔ b ∈ s.experiments ∧ b.definition.blockId = id ∧ b.experimentId = e := by
  rw [← experimentMut_eq_some h]
  unfold experiment experimentMut
  cases hcurrent : s.blocks[id]? with
  | some c => rfl
  | none =>
    -- the block of an archived experiment has a current one
    have hnone : (s.archivedExperiments[e]?.map (·.block)).filter
        (·.definition.blockId = id) = none := by
      rw [Option.filter_eq_none_iff]
      intro x hx hid
      obtain ⟨a, ha, rfl⟩ := Option.map_eq_some_iff.mp hx
      obtain ⟨c, hc, -⟩ := h.owned e a.block.lineage (archive_of_archived ha)
      have hblock : a.block.lineage.definition.blockId = id := of_decide_eq_true hid
      rw [hblock] at hc
      obtain ⟨c', hc', -⟩ := exists_of_current hc
      exact absurd (hc'.symm.trans hcurrent) (by simp)
    rw [hnone]

end Sound

/-! ## Rewriting experiments in place -/

/-- `s'` has the experiments of `s`, each rewritten by `f`. -/
structure Rewrites (f : BlockState → BlockState) (s s' : ControlState) : Prop where
  blocks : ∀ k : String, s'.blocks[k]? = s.blocks[k]?.map f
  archived : ∀ k : String, s'.archivedExperiments[k]?
    = s.archivedExperiments[k]?.map fun a => { a with block := f a.block }

/-- The rewriting of the experiment `e` alone. -/
def rewriteAt (e : String) (g : BlockState → BlockState) (b : BlockState) : BlockState :=
  if b.experimentId = e then g b else b

namespace Rewrites

variable {f g : BlockState → BlockState}

theorem refl (s : ControlState) : Rewrites id s s where
  blocks k := by rw [Option.map_id, id_eq]
  archived k := by
    cases s.archivedExperiments[k]? <;> rfl

section

variable (h : Rewrites f s s')

include h

theorem trans (h' : Rewrites g s' s'') : Rewrites (g ∘ f) s s'' where
  blocks k := by rw [h'.blocks, h.blocks, Option.map_map]
  archived k := by
    rw [h'.archived, h.archived, Option.map_map]
    rfl

theorem of_maps_eq (hblocks : s''.blocks = s'.blocks)
    (harchived : s''.archivedExperiments = s'.archivedExperiments) : Rewrites f s s'' where
  blocks k := by rw [hblocks, h.blocks]
  archived k := by rw [harchived, h.archived]

theorem congr (heq : ∀ b ∈ s.experiments, f b = g b) : Rewrites g s s' where
  blocks k := by
    rw [h.blocks]
    exact Option.map_congr fun b hb => heq b (mem_of_blocks hb)
  archived k := by
    rw [h.archived]
    refine Option.map_congr fun a ha => ?_
    rw [heq a.block (mem_of_archived ha)]

theorem mem_iff :
    b' ∈ s'.experiments ↔ ∃ b ∈ s.experiments, f b = b' := by
  constructor
  · intro hb'
    rcases mem_experiments.mp hb' with ⟨k, hk⟩ | ⟨k, a', hk, rfl⟩
    · rw [h.blocks] at hk
      obtain ⟨b, hb, rfl⟩ := Option.map_eq_some_iff.mp hk
      exact ⟨b, mem_of_blocks hb, rfl⟩
    · rw [h.archived] at hk
      obtain ⟨a, ha, rfl⟩ := Option.map_eq_some_iff.mp hk
      exact ⟨a.block, mem_of_archived ha, rfl⟩
  · rintro ⟨b, hb, rfl⟩
    rcases mem_experiments.mp hb with ⟨k, hk⟩ | ⟨k, a, hk, rfl⟩
    · refine mem_of_blocks (k := k) ?_
      rw [h.blocks, hk]
      rfl
    · have hk' : s'.archivedExperiments[k]? = some { a with block := f a.block } := by
        rw [h.archived, hk]
        rfl
      exact mem_of_archived hk'

/-- **A rewriting that keeps lineages keeps the genealogy.** -/
theorem genealogy_eq (hf : ∀ b ∈ s.experiments, (f b).lineage = b.lineage) :
    s'.genealogy = s.genealogy := by
  unfold genealogy
  congr 1
  · funext k
    rw [h.blocks, Option.map_map]
    exact Option.map_congr fun b hb => hf b (mem_of_blocks hb)
  · funext k
    rw [h.archived, Option.map_map]
    exact Option.map_congr fun a ha => hf a.block (mem_of_archived ha)

end

end Rewrites

/-- **Writing an experiment back rewrites it alone.** -/
theorem setExperiment_rewrites (h : s.genealogy.Sound P) {id e : String}
    {g : BlockState → BlockState} (hb : s.experimentMut id e = some b) :
    Rewrites (rewriteAt e g) s (s.setExperiment id e (g b)) := by
  obtain ⟨hmem, rfl, rfl⟩ := (experimentMut_eq_some h).mp hb
  have hself : rewriteAt b.experimentId g b = g b := if_pos rfl
  -- an experiment found under another key has another id
  have hother : ∀ b' ∈ s.experiments, b' ≠ b → rewriteAt b.experimentId g b' = b' :=
    fun b' hb' hne => if_neg (fun heq => hne (eq_of_experimentId h hb' hmem heq))
  have hkeep : ∀ {α : Type} {o : Option α} {f : α → α}, (∀ x ∈ o, f x = x) → o = o.map f := by
    intro α o f hf
    cases o with
    | none => rfl
    | some x => exact congrArg some (hf x rfl).symm
  unfold setExperiment
  split
  · next hcurrent =>
    obtain ⟨c, hc, hid⟩ := (Option.any_eq_true _ _).mp hcurrent
    obtain rfl := eq_of_experimentId h (mem_of_blocks hc) hmem (of_decide_eq_true hid)
    constructor
    · intro k
      show (s.blocks.insert _ _)[k]? = _
      rw [StrMap.getElem?_insert]
      split
      · next hk =>
        rw [← hk, hc, Option.map_some, hself]
      · next hk =>
        refine hkeep fun x hx => hother x (mem_of_blocks hx) ?_
        rintro rfl
        exact hk (blockId_of_blocks h hx)
    · intro k
      refine hkeep fun a ha => ?_
      have hne : a.block ≠ c := by
        intro heq
        have hnone := archived_eq_none h hc
        rw [← heq, experimentId_of_archived h ha, ha] at hnone
        exact absurd hnone (by simp)
      rw [hother a.block (mem_of_archived ha) hne]
  · next hcurrent =>
    rcases mem_experiments.mp hmem with ⟨k, hk⟩ | ⟨k, a, hk, rfl⟩
    · obtain rfl := blockId_of_blocks h hk
      exact absurd (by simp [hk]) hcurrent
    · obtain rfl := experimentId_of_archived h hk
      rw [hk]
      constructor
      · intro k
        refine hkeep fun x hx => hother x (mem_of_blocks hx) ?_
        rintro rfl
        have hnone := archived_eq_none h hx
        rw [hk] at hnone
        exact absurd hnone (by simp)
      · intro k
        show (s.archivedExperiments.insert _ _)[k]? = _
        rw [StrMap.getElem?_insert]
        split
        · next heq =>
          rw [← heq, hk, Option.map_some, hself]
        · next hne =>
          refine hkeep fun a' ha' => ?_
          have hblock : a'.block ≠ a.block := by
            intro heq
            exact hne ((congrArg (·.experimentId) heq).symm.trans
              (experimentId_of_archived h ha'))
          rw [hother a'.block (mem_of_archived ha') hblock]

end ControlState

end BitRouter.Evolution
