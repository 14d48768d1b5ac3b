import BitRouter.Gateway.CausalPrefix
import Mathlib.Data.List.DropRight

/-!
# What a causal prefix authenticates

The root of a history determines what its turns say, as long as SHA-256 has no
collision among what was hashed (`turnsRoot_inj`). A stored root is then found
in a history exactly where that history says what the root was made of, and
the root a later turn extends is the one of the whole history
(`causalPrefix_continues`).

What the digest covers is what `CausalItem` spells out. The role of a turn is
read off its content, the name of the tool of a result is left out, and so is
the difference between no reason of a denial and an empty one.
-/

namespace BitRouter.Gateway

open Ai

/-! ## Sound turns -/

/-- A turn that was read off some messages. -/
structure CausalTurn.Sound (turn : CausalTurn) : Prop where
  bounded : ∀ part ∈ turn.parts, part.Bounded
  items : turn.items.map CausalItem.part = turn.parts
  size : 0 < turn.size

theorem CausalItem.part_injective : Function.Injective CausalItem.part := by
  have hbool : ∀ {b c : Bool}, b.toNat = c.toNat → b = c := by decide
  intro x y h
  cases x <;> cases y <;> simp only [CausalItem.part, Part.mk.injEq, List.cons.injEq] at h
  case text.text => rw [bytes_injective h.2.1]
  case reasoning.reasoning => rw [bytes_injective h.2.1]
  case toolCall.toolCall =>
    obtain ⟨-, hid, hname, harguments, hexecuted, hdynamic, -⟩ := h
    rw [bytes_injective hid, bytes_injective hname, bytes_injective harguments,
      hbool hexecuted.1, hbool hdynamic.1]
  case toolResult.toolResult =>
    obtain ⟨-, hid, hkind, hvalue, hdynamic, -⟩ := h
    rw [bytes_injective hid, bytes_injective hkind, bytes_injective hvalue, hbool hdynamic.1]
  all_goals exact absurd h.1 (by decide)

variable {saying : Saying}

theorem eq_of_counted {saying' : Saying} (h : counted saying = some saying') :
    saying' = saying := by
  unfold counted at h
  split at h
  · exact (Option.some.inj h).symm
  · exact absurd h (by simp)

/-- A block that can be hashed is hashed as its item. -/
theorem causalItem_of_causalPart {content : Content} (h : causalPart content = some saying) :
    saying.part.Bounded ∧ ∃ item, causalItem content = some item ∧ item.part = saying.part := by
  cases content with
  | text value metadata =>
    have hpart : assistantPart (.text value metadata) = some saying := h
    refine ⟨bounded_of_assistantPart hpart, _, rfl, ?_⟩
    have htext : (if isPhased metadata then none else textSaying 1 value) = some saying := h
    split at htext
    · exact absurd htext (by simp)
    · rw [eq_of_counted htext]
      rfl
  | toolCall id name arguments providerExecuted dynamic metadata =>
    have hpart : assistantPart (.toolCall id name arguments providerExecuted dynamic metadata)
      = some saying := h
    refine ⟨bounded_of_assistantPart hpart, _, rfl, ?_⟩
    have hcall : (if clientToolMetadataPresent metadata then none
      else callSaying id name arguments providerExecuted dynamic) = some saying := h
    unfold callSaying at hcall
    split at hcall
    · exact absurd hcall (by simp)
    · split at hcall
      · exact absurd hcall (by simp)
      · rw [eq_of_counted hcall]
        rfl
  | toolResult callId toolName output dynamic metadata =>
    have hresult : (if clientToolMetadataPresent metadata then none
      else (outputText output).bind fun text =>
        resultSaying callId text.1 text.2 dynamic) = some saying := h
    split at hresult
    · exact absurd hresult (by simp)
    · obtain ⟨⟨kind, value⟩, houtput, hresult⟩ := Option.bind_eq_some_iff.mp hresult
      have hitem : causalItem (.toolResult callId toolName output dynamic metadata)
          = some (.toolResult callId kind value dynamic) := by
        show (outputText output).map _ = _
        rw [houtput]
        rfl
      unfold resultSaying at hresult
      split at hresult
      · exact absurd hresult (by simp)
      · refine ⟨bounded_of_counted hresult (by simp [CausalItem.part]), _, hitem, ?_⟩
        rw [eq_of_counted hresult]
  | other block =>
    cases block with
    | reasoning value metadata native =>
      have hpart : assistantPart (.other (.reasoning value metadata native)) = some saying := h
      refine ⟨bounded_of_assistantPart hpart, _, rfl, ?_⟩
      rw [eq_of_counted (show counted _ = some saying from h)]
      rfl
    | _ => exact absurd h (by simp [causalPart, assistantPart])

theorem items_of_mapM {content : List Content} {said : List Saying}
    (h : content.mapM causalPart = some said) :
    (∀ part ∈ said.map (·.part), part.Bounded)
      ∧ (content.filterMap causalItem).map CausalItem.part = said.map (·.part) := by
  have hmap := mapM_eq_some.mp h
  clear h
  induction content generalizing said with
  | nil =>
    obtain rfl := List.map_eq_nil_iff.mp hmap.symm
    exact ⟨fun part hpart => absurd hpart List.not_mem_nil, rfl⟩
  | cons block content ih =>
    cases said with
    | nil => exact absurd hmap (by simp)
    | cons saying said =>
      rw [List.map_cons, List.map_cons, List.cons.injEq] at hmap
      obtain ⟨hbounded, item, hitem, hpart⟩ := causalItem_of_causalPart hmap.1
      obtain ⟨hall, hrest⟩ := ih hmap.2
      refine ⟨List.forall_mem_cons.mpr ⟨hbounded, hall⟩, ?_⟩
      rw [List.filterMap_cons_some hitem, List.map_cons, List.map_cons, hpart, hrest]

variable {messages : List Message} {turn : CausalTurn}

theorem sound_of_causalTurn (h : causalTurn messages = some turn) :
    turn.Sound ∧ turn.size = messages.length := by
  cases messages with
  | nil => exact absurd h (by simp [causalTurn])
  | cons message more =>
    obtain ⟨role, hrole, h⟩ := Option.bind_eq_some_iff.mp h
    obtain ⟨said, hsaid, h⟩ := Option.bind_eq_some_iff.mp h
    split at h
    · obtain rfl := Option.some.inj h
      obtain ⟨hbounded, hitems⟩ := items_of_mapM hsaid
      exact ⟨⟨hbounded, hitems, Nat.succ_pos _⟩, rfl⟩
    · exact absurd h (by simp)

variable {turns : List CausalTurn}

section

variable (h : causalTurns messages = some turns)

include h

theorem sound_of_causalTurns :
    ∀ turn ∈ turns, turn.Sound := by
  intro turn hturn
  have hmap := mapM_eq_some.mp h
  have hmem : some turn ∈ (causalGroups messages).map causalTurn := by
    rw [hmap]
    exact List.mem_map_of_mem hturn
  obtain ⟨group, -, hgroup⟩ := List.mem_map.mp hmem
  exact (sound_of_causalTurn hgroup).1

theorem role_of_causalTurns (hturn : turn ∈ turns) :
    ∃ message ∈ messages, causalMessageRole message = some turn.role := by
  have hmem : some turn ∈ (causalGroups messages).map causalTurn := by
    rw [mapM_eq_some.mp h]
    exact List.mem_map_of_mem hturn
  obtain ⟨group, hmem, hgroup⟩ := List.mem_map.mp hmem
  cases group with
  | nil => exact absurd hmem (List.nil_notMem_splitBy _ _)
  | cons message more =>
    refine ⟨message, ?_, ?_⟩
    · rw [← List.flatten_splitBy joinsNext messages]
      exact List.mem_flatten_of_mem hmem List.mem_cons_self
    · rw [causalTurn_cons] at hgroup
      obtain ⟨role, hrole, hgroup⟩ := Option.bind_eq_some_iff.mp hgroup
      obtain ⟨said, -, hgroup⟩ := Option.bind_eq_some_iff.mp hgroup
      split at hgroup
      · obtain rfl := Option.some.inj hgroup
        exact hrole
      · exact absurd hgroup (by simp)

/-- The turns of a history cover it. -/
theorem sum_size_causalTurns :
    (turns.map (·.size)).sum = messages.length := by
  have hlength : ∀ {groups : List (List Message)} {turns : List CausalTurn},
      groups.map causalTurn = turns.map some →
        (turns.map (·.size)).sum = groups.flatten.length := by
    intro groups
    induction groups with
    | nil =>
      intro turns h
      obtain rfl := List.map_eq_nil_iff.mp h.symm
      rfl
    | cons group groups ih =>
      intro turns h
      cases turns with
      | nil => exact absurd h (by simp)
      | cons turn turns =>
        rw [List.map_cons, List.map_cons, List.cons.injEq] at h
        rw [List.map_cons, List.sum_cons, List.flatten_cons, List.length_append,
          (sound_of_causalTurn h.1).2, ih h.2]
  rw [hlength (mapM_eq_some.mp h), causalGroups, List.flatten_splitBy]

end

/-! ## Roots -/

variable {root : CausalPrefixCommitment}

section Roots

variable (sha256 : List ℕ → List ℕ)

def turnsRoot (turns : List CausalTurn) : CausalPrefixCommitment :=
  turns.foldl (stepRoot sha256) (initialCausalPrefix sha256)

/-- What is hashed along some turns. -/
def stepInputs : CausalPrefixCommitment → List CausalTurn → List (List ℕ)
  | _, [] => []
  | root, turn :: turns =>
    stepInput root turn.role (commit sha256 turn.parts)
      :: (commitInputs sha256 turn.parts ++ stepInputs (stepRoot sha256 root turn) turns)

def turnsInputs (turns : List CausalTurn) : List (List ℕ) :=
  causalPrefixRootDomain :: stepInputs sha256 (initialCausalPrefix sha256) turns

/-- **What is hashed along a history.** -/
def causalInputs (messages : List Message) : List (List ℕ) :=
  turnsInputs sha256 ((causalTurns messages).getD [])

variable {sha256}

theorem turnsRoot_concat (turns : List CausalTurn) (turn : CausalTurn) :
    turnsRoot sha256 (turns ++ [turn]) = stepRoot sha256 (turnsRoot sha256 turns) turn := by
  unfold turnsRoot
  rw [List.foldl_append]
  rfl

theorem length_turnsRoot {n : ℕ} (huniform : Uniform sha256 n) (turns : List CausalTurn) :
    (turnsRoot sha256 turns).digest.length = n := by
  induction turns using List.reverseRecOn with
  | nil => exact huniform _
  | append_singleton turns turn _ =>
    rw [turnsRoot_concat]
    exact huniform _

theorem stepInputs_append (root : CausalPrefixCommitment) (turns more : List CausalTurn) :
    stepInputs sha256 root (turns ++ more) = stepInputs sha256 root turns
      ++ stepInputs sha256 (turns.foldl (stepRoot sha256) root) more := by
  induction turns generalizing root with
  | nil => rfl
  | cons turn turns ih =>
    rw [List.cons_append, stepInputs, stepInputs, ih, List.cons_append, List.append_assoc]
    rfl

theorem turnsInputs_append (turns more : List CausalTurn) :
    turnsInputs sha256 (turns ++ more)
      = turnsInputs sha256 turns ++ stepInputs sha256 (turnsRoot sha256 turns) more := by
  unfold turnsInputs
  rw [stepInputs_append]
  rfl

variable (sha256) in
theorem turnsInputs_subset (turns more : List CausalTurn) :
    turnsInputs sha256 turns ⊆ turnsInputs sha256 (turns ++ more) := by
  rw [turnsInputs_append]
  exact List.subset_append_left _ _

theorem stepInput_mem_turnsInputs (turns : List CausalTurn) (turn : CausalTurn) :
    stepInput (turnsRoot sha256 turns) turn.role (commit sha256 turn.parts)
      ∈ turnsInputs sha256 (turns ++ [turn]) := by
  rw [turnsInputs_append]
  exact List.mem_append_right _ List.mem_cons_self

theorem commitInputs_subset (turns : List CausalTurn) (turn : CausalTurn) :
    commitInputs sha256 turn.parts ⊆ turnsInputs sha256 (turns ++ [turn]) := by
  intro x hx
  rw [turnsInputs_append]
  exact List.mem_append_right _ (List.mem_cons_of_mem _ (List.mem_append_left _ hx))

theorem roleByte_injective : Function.Injective roleByte := by
  intro r s h
  cases r <;> cases s <;> first | rfl | exact absurd h (by decide)

/-- Two steps that are hashed alike. -/
theorem stepInput_inj {n : ℕ} {root' : CausalPrefixCommitment} {role role' : Role}
    {c c' : AssistantTurnCommitment} (hroot : root.digest.length = n)
    (hroot' : root'.digest.length = n) (h : stepInput root role c = stepInput root' role' c') :
    root = root' ∧ role = role' ∧ c = c' := by
  have h := List.append_cancel_left h
  obtain ⟨hdigest, h⟩ := List.append_inj h (hroot.trans hroot'.symm)
  rw [List.cons.injEq] at h
  refine ⟨?_, roleByte_injective h.1, ?_⟩
  · cases root
    cases root'
    exact congrArg _ hdigest
  · cases c
    cases c'
    exact congrArg _ h.2

/-- A step is never hashed as the root of the empty history is. -/
theorem rootDomain_ne_stepInput (root : CausalPrefixCommitment) (role : Role)
    (c : AssistantTurnCommitment) : causalPrefixRootDomain ≠ stepInput root role c := by
  intro h
  have hlength := congrArg List.length h
  have hdomain : causalPrefixRootDomain.length = causalPrefixStepDomain.length := by decide +kernel
  unfold stepInput at hlength
  rw [List.length_append, List.length_append, List.length_cons] at hlength
  omega

theorem CausalTurn.meaning_eq {turn' : CausalTurn} (h : turn.Sound) (h' : turn'.Sound)
    (hrole : turn.role = turn'.role) (hparts : turn.parts = turn'.parts) :
    turn.meaning = turn'.meaning := by
  have hitems : turn.items.map CausalItem.part = turn'.items.map CausalItem.part := by
    rw [h.items, h'.items, hparts]
  unfold CausalTurn.meaning
  rw [hrole, CausalItem.part_injective.list_map hitems]

/-- **A root determines what its turns say.** -/
theorem turnsRoot_inj (huniform : Uniform sha256 32) {turns' : List CausalTurn}
    (hsound : ∀ turn ∈ turns, turn.Sound) (hsound' : ∀ turn ∈ turns', turn.Sound)
    (hfree : CollisionFree sha256 (turnsInputs sha256 turns ++ turnsInputs sha256 turns'))
    (h : turnsRoot sha256 turns = turnsRoot sha256 turns') :
    turns.map CausalTurn.meaning = turns'.map CausalTurn.meaning := by
  induction turns using List.reverseRecOn generalizing turns' with
  | nil =>
    cases turns' using List.reverseRecOn with
    | nil => rfl
    | append_singleton turns' turn' =>
      rw [turnsRoot_concat] at h
      refine absurd (hfree _ (List.mem_append_left _ List.mem_cons_self) _
        (List.mem_append_right _ (stepInput_mem_turnsInputs turns' turn')) ?_)
        (rootDomain_ne_stepInput _ _ _)
      exact congrArg CausalPrefixCommitment.digest h
  | append_singleton turns turn ih =>
    cases turns' using List.reverseRecOn with
    | nil =>
      rw [turnsRoot_concat] at h
      refine absurd (hfree _ (List.mem_append_right _ List.mem_cons_self) _
        (List.mem_append_left _ (stepInput_mem_turnsInputs turns turn)) ?_)
        (rootDomain_ne_stepInput _ _ _)
      exact congrArg CausalPrefixCommitment.digest h.symm
    | append_singleton turns' turn' =>
      rw [turnsRoot_concat, turnsRoot_concat] at h
      have hstep := hfree _ (List.mem_append_left _ (stepInput_mem_turnsInputs turns turn)) _
        (List.mem_append_right _ (stepInput_mem_turnsInputs turns' turn'))
        (congrArg CausalPrefixCommitment.digest h)
      obtain ⟨hroot, hrole, hcommit⟩ := stepInput_inj (length_turnsRoot huniform turns)
        (length_turnsRoot huniform turns') hstep
      have hturn : turn.Sound := hsound turn (by simp)
      have hturn' : turn'.Sound := hsound' turn' (by simp)
      have hparts : turn.parts = turn'.parts := by
        refine commit_inj huniform hturn.bounded hturn'.bounded (hfree.mono ?_) hcommit
        exact List.append_subset.mpr
          ⟨List.subset_append_of_subset_left _ (commitInputs_subset turns turn),
            List.subset_append_of_subset_right _ (commitInputs_subset turns' turn')⟩
      have hbefore := ih (fun t ht => hsound t (List.mem_append_left _ ht))
        (fun t ht => hsound' t (List.mem_append_left _ ht))
        (hfree.mono (List.append_subset.mpr
          ⟨List.subset_append_of_subset_left _ (turnsInputs_subset sha256 turns [turn]),
            List.subset_append_of_subset_right _ (turnsInputs_subset sha256 turns' [turn'])⟩)) hroot
      rw [List.map_append, List.map_append, hbefore, List.map_singleton, List.map_singleton,
        CausalTurn.meaning_eq hturn hturn' hrole hparts]

end Roots

/-! ## The search -/

variable {o : Observation} {os : List Observation}

section Search

def matching (root : CausalPrefixCommitment) (os : List Observation) : List Observation :=
  os.filter fun o => o.role = .assistant ∧ o.root = root

def replies (os : List Observation) : List Observation := os.filter (·.role = .assistant)

theorem matching_append (root : CausalPrefixCommitment) (os os' : List Observation) :
    matching root (os ++ os') = matching root os ++ matching root os' := List.filter_append ..

theorem replies_append (os os' : List Observation) :
    replies (os ++ os') = replies os ++ replies os' := List.filter_append ..

theorem matching_eq_nil (h : ∀ o ∈ os, o.role = .assistant → o.root ≠ root) :
    matching root os = [] := by
  refine List.filter_eq_nil_iff.mpr fun o ho hmatches => ?_
  obtain ⟨hrole, hroot⟩ := of_decide_eq_true hmatches
  exact h o ho hrole hroot

theorem replies_eq_nil (h : ∀ o ∈ os, o.role ≠ .assistant) :
    replies os = [] :=
  List.filter_eq_nil_iff.mpr fun o ho hrole => h o ho (of_decide_eq_true hrole)

theorem matching_singleton :
    matching root [o] = if o.role = .assistant ∧ o.root = root then [o] else [] := by
  unfold matching
  rw [List.filter_singleton, Bool.cond_decide]

theorem replies_singleton :
    replies [o] = if o.role = .assistant then [o] else [] := by
  unfold replies
  rw [List.filter_singleton, Bool.cond_decide]

/-- **What the search has seen.** -/
theorem search_eq (root : CausalPrefixCommitment) (os : List Observation) :
    os.foldl (Search.observe root) {} =
      { matchingEnd := (matching root os).getLast?.map (·.stop)
        ambiguous := decide (1 < (matching root os).length)
        lastAssistantEnd := (replies os).getLast?.map (·.stop) } := by
  induction os using List.reverseRecOn with
  | nil => rfl
  | append_singleton os o ih =>
    rw [List.foldl_append, ih, matching_append, replies_append, matching_singleton,
      replies_singleton]
    show Search.observe root _ o = _
    unfold Search.observe
    by_cases hrole : o.role = .assistant
    · rw [if_pos hrole, if_pos hrole, List.getLast?_concat]
      by_cases hroot : o.root = root
      · rw [if_pos hroot, if_pos ⟨hrole, hroot⟩, List.getLast?_concat, List.length_append,
          List.length_singleton]
        have hambiguous : (decide (1 < (matching root os).length)
            || ((matching root os).getLast?.map (·.stop)).isSome)
            = decide (1 < (matching root os).length + 1) := by
          cases matching root os with
          | nil => rfl
          | cons first more => simp
        rw [hambiguous]
        rfl
      · rw [if_neg hroot, if_neg (fun h => hroot h.2), List.append_nil]
        rfl
    · rw [if_neg hrole, if_neg hrole, if_neg (fun h => hrole h.1), List.append_nil,
        List.append_nil]

variable {sha256 : List ℕ → List ℕ}

/-- What the search answers. -/
theorem findUnique_eq {last : CausalPrefixCommitment}
    (hfold : foldCausalMessages sha256 none messages = some (last, os)) :
    findUniqueCausalPrefix sha256 messages root
      = ((matching root os).getLast?.map (·.stop)).bind fun stop =>
        if ¬ 1 < (matching root os).length ∧ (replies os).getLast?.map (·.stop) = some stop
        then some stop else none := by
  unfold findUniqueCausalPrefix
  rw [hfold]
  show Option.bind (os.foldl (Search.observe root) {}).matchingEnd (fun stop =>
    if ¬ (os.foldl (Search.observe root) {}).ambiguous ∧ _ then some stop else none) = _
  rw [search_eq]
  simp only [decide_eq_true_eq]

section

variable {last : CausalPrefixCommitment} {before after : List Observation}
  (hfold : foldCausalMessages sha256 none messages = some (last, before ++ o :: after))
  (hrole : o.role = .assistant)

include hfold hrole

/-- **The root of the last reply is found** where no earlier reply has it. -/
theorem findUnique_eq_some (hroot : o.root = root)
    (hbefore : ∀ o ∈ before, o.role = .assistant → o.root ≠ root)
    (hafter : ∀ o ∈ after, o.role ≠ .assistant) :
    findUniqueCausalPrefix sha256 messages root = some o.stop := by
  have hmatching : matching root (before ++ o :: after) = [o] := by
    rw [List.append_cons, matching_append, matching_append, matching_singleton,
      matching_eq_nil hbefore, if_pos ⟨hrole, hroot⟩,
      matching_eq_nil fun o ho hassistant => absurd hassistant (hafter o ho)]
    rfl
  have hreplies : (replies (before ++ o :: after)).getLast? = some o := by
    rw [List.append_cons, replies_append, replies_append, replies_singleton, if_pos hrole,
      replies_eq_nil hafter, List.append_nil, List.getLast?_concat]
  rw [findUnique_eq hfold, hmatching, hreplies]
  exact if_pos ⟨Nat.lt_irrefl 1, rfl⟩

/-- **A root that is found is the one of the last reply.** -/
theorem root_of_findUnique {stop : ℕ} (hafter : ∀ o ∈ after, o.role ≠ .assistant)
    (hstops : (before ++ o :: after).Pairwise fun x y => x.stop < y.stop)
    (h : findUniqueCausalPrefix sha256 messages root = some stop) : o.root = root := by
  have hreplies : (replies (before ++ o :: after)).getLast? = some o := by
    rw [List.append_cons, replies_append, replies_append, replies_singleton, if_pos hrole,
      replies_eq_nil hafter, List.append_nil, List.getLast?_concat]
  rw [findUnique_eq hfold, hreplies] at h
  obtain ⟨stop', hmatching, h⟩ := Option.bind_eq_some_iff.mp h
  obtain ⟨o', ho', rfl⟩ := Option.map_eq_some_iff.mp hmatching
  split at h
  · rename_i hlast
    have hstop : o.stop = o'.stop := Option.some.inj hlast.2
    have hmem := List.mem_of_mem_getLast? (Option.mem_def.mpr ho')
    obtain ⟨hmem, hmatches⟩ := List.mem_filter.mp hmem
    obtain ⟨hassistant, hroot⟩ := of_decide_eq_true hmatches
    -- a matching reply is not after the last one, and an earlier one ends earlier
    rcases List.mem_append.mp hmem with hbefore | hrest
    · have hlt := (List.pairwise_append.mp hstops).2.2 o' hbefore o List.mem_cons_self
      omega
    · rcases List.mem_cons.mp hrest with rfl | hmem
      · exact hroot
      · exact absurd hassistant (hafter o' hmem)
  · exact absurd h (by simp)

end

end Search

/-! ## Observations of turns -/

variable {before : List CausalTurn}

section Observed

variable {sha256 : List ℕ → List ℕ}

theorem observations_append (index : ℕ) (root : CausalPrefixCommitment)
    (turns more : List CausalTurn) :
    observations sha256 index root (turns ++ more) = observations sha256 index root turns
      ++ observations sha256 (index + (turns.map (·.size)).sum)
        (turns.foldl (stepRoot sha256) root) more := by
  induction turns generalizing index root with
  | nil => rfl
  | cons turn turns ih =>
    rw [List.cons_append, observations, observations, ih, List.map_cons, List.sum_cons,
      Nat.add_assoc]
    rfl

theorem exists_turn_of_mem_observations {index : ℕ} (h : o ∈ observations sha256 index root turns) :
    ∃ before turn after, turns = before ++ turn :: after ∧ o.role = turn.role
      ∧ o.root = (before ++ [turn]).foldl (stepRoot sha256) root := by
  induction turns generalizing index root with
  | nil => exact absurd h List.not_mem_nil
  | cons turn turns ih =>
    rcases List.mem_cons.mp h with rfl | h
    · exact ⟨[], turn, turns, rfl, rfl, rfl⟩
    · obtain ⟨before, turn', after, rfl, hrole, hroot⟩ := ih h
      exact ⟨turn :: before, turn', after, rfl, hrole, hroot⟩

variable (sha256) in
theorem stops_increase (index : ℕ) (root : CausalPrefixCommitment)
    (hsound : ∀ turn ∈ turns, turn.Sound) :
    (∀ o ∈ observations sha256 index root turns, index < o.stop)
      ∧ (observations sha256 index root turns).Pairwise fun x y => x.stop < y.stop := by
  induction turns generalizing index root with
  | nil => exact ⟨fun o ho => absurd ho List.not_mem_nil, List.Pairwise.nil⟩
  | cons turn turns ih =>
    obtain ⟨hturn, hturns⟩ := List.forall_mem_cons.mp hsound
    obtain ⟨hlater, hpairwise⟩ := ih (index + turn.size)
      (stepRoot sha256 root turn) hturns
    have hsize := hturn.size
    refine ⟨List.forall_mem_cons.mpr ⟨?_, fun o ho => ?_⟩, List.pairwise_cons.mpr
      ⟨fun o ho => hlater o ho, hpairwise⟩⟩
    · exact Nat.lt_add_of_pos_right hsize
    · have := hlater o ho
      omega

/-- The turns up to the last reply. -/
theorem exists_last_reply (h : ∃ turn ∈ turns, turn.role = .assistant) :
    ∃ before turn after, turns = before ++ turn :: after ∧ turn.role = .assistant
      ∧ ∀ turn ∈ after, turn.role ≠ .assistant := by
  induction turns using List.reverseRecOn with
  | nil =>
    obtain ⟨turn, hturn, -⟩ := h
    exact absurd hturn List.not_mem_nil
  | append_singleton turns last ih =>
    by_cases hlast : last.role = .assistant
    · exact ⟨turns, last, [], rfl, hlast, fun turn hturn => absurd hturn List.not_mem_nil⟩
    · have hbefore : ∃ turn ∈ turns, turn.role = .assistant := by
        obtain ⟨turn, hturn, hrole⟩ := h
        rcases List.mem_append.mp hturn with hturn | hturn
        · exact ⟨turn, hturn, hrole⟩
        · exact absurd (List.mem_singleton.mp hturn ▸ hrole) hlast
      obtain ⟨before, turn, after, rfl, hrole, hafter⟩ := ih hbefore
      refine ⟨before, turn, after ++ [last], by simp, hrole, ?_⟩
      intro t ht
      rcases List.mem_append.mp ht with ht | ht
      · exact hafter t ht
      · exact List.mem_singleton.mp ht ▸ hlast

/-- **What a client has been told**: the turns of a history up to the last
reply, as far as they are hashed. -/
def visibleHistory (messages : List Message) : Option (List (Role × List CausalItem)) :=
  (causalTurns messages).map fun turns =>
    (turns.rdropWhile fun turn => turn.role ≠ .assistant).map CausalTurn.meaning

theorem rdropWhile_reply {after : List CausalTurn} (hrole : turn.role = .assistant)
    (hafter : ∀ turn ∈ after, turn.role ≠ .assistant) :
    (before ++ turn :: after).rdropWhile (fun turn => turn.role ≠ .assistant)
      = before ++ [turn] := by
  induction after using List.reverseRecOn with
  | nil => exact List.rdropWhile_concat_neg _ _ _ (by simp [hrole])
  | append_singleton after last ih =>
    rw [← List.cons_append, ← List.append_assoc, List.rdropWhile_concat_pos _ _ _
      (by simpa using hafter last (by simp))]
    exact ih fun turn hturn => hafter turn (List.mem_append_left _ hturn)

/-- **A root that is found in a history is the root of what it shows.** -/
theorem exists_turns_of_findUnique {stop : ℕ}
    (h : findUniqueCausalPrefix sha256 messages root = some stop) :
    ∃ before turn after, causalTurns messages = some (before ++ turn :: after)
      ∧ turn.role = .assistant ∧ (∀ turn ∈ after, turn.role ≠ .assistant)
      ∧ turnsRoot sha256 (before ++ [turn]) = root := by
  cases hturns : causalTurns messages with
  | none =>
    have hfold := foldCausalMessages_eq sha256 none messages
    rw [hturns] at hfold
    unfold findUniqueCausalPrefix at h
    rw [hfold] at h
    exact absurd h (by simp)
  | some turns =>
    have hfold := foldCausalMessages_eq sha256 none messages
    rw [hturns] at hfold
    have hfound := h
    rw [findUnique_eq hfold] at hfound
    obtain ⟨_, hmatching, -⟩ := Option.bind_eq_some_iff.mp hfound
    obtain ⟨o, ho, -⟩ := Option.map_eq_some_iff.mp hmatching
    obtain ⟨hmem, hmatches⟩ := List.mem_filter.mp (List.mem_of_mem_getLast? ho)
    obtain ⟨before, turn, after, heq, hrole, -⟩ := exists_turn_of_mem_observations hmem
    have hreply : ∃ turn ∈ turns, turn.role = .assistant :=
      ⟨turn, by rw [heq]; simp, hrole ▸ (of_decide_eq_true hmatches).1⟩
    obtain ⟨before, turn, after, rfl, hrole, hafter⟩ := exists_last_reply hreply
    refine ⟨before, turn, after, rfl, hrole, hafter, ?_⟩
    have hstops := (stops_increase sha256 0 (initialCausalPrefix sha256)
      (sound_of_causalTurns hturns)).2
    rw [Option.map_some, Option.getD_none, observations_append] at hfold
    rw [observations_append] at hstops
    have hroot := root_of_findUnique hfold hrole (fun o ho => ?_) hstops h
    · rw [turnsRoot_concat]
      exact hroot
    · obtain ⟨_, turn, _, rfl, hrole, -⟩ := exists_turn_of_mem_observations ho
      rw [hrole]
      exact hafter turn (by simp)

end Observed

/-! ## Continuing a history -/

section Continue

variable {sha256 : List ℕ → List ℕ}

theorem causalTurns_append {more : List Message}
    (h : ∀ x ∈ messages.getLast?, ∀ y ∈ more.head?, joinsNext x y = false) :
    causalTurns (messages ++ more) = (causalTurns messages).bind fun turns =>
      (causalTurns more).map (turns ++ ·) := by
  unfold causalTurns causalGroups
  rw [List.splitBy_append h, List.mapM_append]
  cases (messages.splitBy joinsNext).mapM causalTurn with
  | none => rfl
  | some turns => cases (more.splitBy joinsNext).mapM causalTurn <;> rfl

theorem causalPart_of_assistantPart {content : Content} (h : assistantPart content = some saying) :
    causalPart content = some saying := by
  cases content with
  | toolResult => exact absurd h (by simp [assistantPart])
  | _ => exact h

theorem causalParts_of_assistantParts {content : List Content} {said : List Saying}
    (h : content.map assistantPart = said.map some) :
    content.map causalPart = said.map some := by
  induction content generalizing said with
  | nil => exact h
  | cons block content ih =>
    cases said with
    | nil => exact absurd h (by simp)
    | cons saying said =>
      rw [List.map_cons, List.map_cons, List.cons.injEq] at h
      rw [List.map_cons, List.map_cons, causalPart_of_assistantPart h.1, ih h.2]

/-- **Adjacent assistant messages are one turn**, committed to as their content is. -/
theorem causalTurns_reply {c : AssistantTurnCommitment} (hne : messages ≠ [])
    (hrole : ∀ m ∈ messages, causalMessageRole m = some .assistant)
    (hc : assistantTurnCommitment sha256 (messages.flatMap (·.content)) = some c) :
    ∃ turn, causalTurns messages = some [turn] ∧ turn.role = .assistant
      ∧ commit sha256 turn.parts = c ∧ turn.size = messages.length := by
  obtain ⟨said, hsaid, hbound, hany, rfl⟩ := assistantTurnCommitment_eq_some.mp hc
  have hpart := causalParts_of_assistantParts hsaid
  have hchain : messages.IsChain fun x y => joinsNext x y :=
    List.Pairwise.isChain (List.pairwise_of_forall_mem_list fun x hx y hy =>
      joinsNext_eq_true.mpr ⟨.assistant, hrole x hx, hrole y hy, rfl⟩)
  have hgroups : causalGroups messages = [messages] := List.splitBy_of_isChain hne hchain
  cases messages with
  | nil => exact absurd rfl hne
  | cons message more =>
    refine ⟨{ role := .assistant, said, size := (message :: more).length
              items := ((message :: more).flatMap (·.content)).filterMap causalItem }, ?_, rfl,
      rfl, rfl⟩
    rw [causalTurns, hgroups, List.mapM_cons, causalTurn_cons, hrole message List.mem_cons_self,
      Option.bind_some, mapM_eq_some.mpr hpart, Option.bind_some, if_pos ⟨hany, hbound⟩]
    rfl

theorem extendCausalPrefix_eq (prior : Option CausalPrefixCommitment) (messages : List Message)
    (delivered : AssistantTurnCommitment) :
    extendCausalPrefix sha256 prior messages delivered
      = (causalTurns messages).map fun turns =>
        extendCausalStep sha256 (turns.foldl (stepRoot sha256)
          (prior.getD (initialCausalPrefix sha256))) .assistant delivered := by
  unfold extendCausalPrefix
  rw [foldCausalMessages_eq]
  cases causalTurns messages with
  | none => rfl
  | some turns => rfl

theorem causalInputs_eq (h : causalTurns messages = some turns) :
    causalInputs sha256 messages = turnsInputs sha256 turns := by
  unfold causalInputs
  rw [h]
  rfl

/-- The root of the last reply of a history is found at its end. -/
theorem findUnique_of_turns (huniform : Uniform sha256 32) {after : List CausalTurn}
    {reply : CausalTurn} (hturns : causalTurns messages = some (before ++ [reply] ++ after))
    (hrole : reply.role = .assistant) (hafter : ∀ turn ∈ after, turn.role ≠ .assistant)
    (hfree : CollisionFree sha256 (causalInputs sha256 messages)) :
    findUniqueCausalPrefix sha256 messages (turnsRoot sha256 (before ++ [reply]))
      = some ((before.map (·.size)).sum + reply.size) := by
  have hsound := sound_of_causalTurns hturns
  have hfold := foldCausalMessages_eq sha256 none messages
  rw [hturns, Option.map_some, Option.getD_none, List.append_assoc, observations_append,
    Nat.zero_add] at hfold
  rw [causalInputs_eq hturns] at hfree
  refine findUnique_eq_some hfold hrole ?_ ?_ ?_
  · rw [turnsRoot_concat]
    rfl
  · -- an earlier root is that of fewer turns
    intro o ho _ hequal
    obtain ⟨earlier, turn, later, rfl, -, ho⟩ := exists_turn_of_mem_observations ho
    have hmem : ∀ t ∈ earlier ++ [turn], t ∈ earlier ++ turn :: later ++ [reply] ++ after := by
      intro t ht
      simp only [List.mem_append, List.mem_cons] at ht ⊢
      tauto
    have hinputs := turnsInputs_subset sha256 (earlier ++ [turn])
      (later ++ [reply] ++ after)
    have hinputs' := turnsInputs_subset sha256 (earlier ++ turn :: later ++ [reply])
      after
    rw [show earlier ++ [turn] ++ (later ++ [reply] ++ after)
      = earlier ++ turn :: later ++ [reply] ++ after by simp] at hinputs
    have hmeaning := turnsRoot_inj huniform (fun t ht => hsound t (hmem t ht))
      (fun t ht => hsound t (List.mem_append_left _ ht))
      (hfree.mono (List.append_subset.mpr ⟨hinputs, hinputs'⟩)) (ho.symm.trans hequal)
    have hlength := congrArg List.length hmeaning
    simp at hlength
  · intro o ho
    obtain ⟨earlier, turn, later, rfl, ho, -⟩ := exists_turn_of_mem_observations ho
    rw [ho]
    exact hafter turn (by simp)

theorem findUnique_eq_none (huniform : Uniform sha256 32) {shown : List Message}
    {reply : CausalTurn} (hshown : causalTurns shown = some (before ++ [reply]))
    (hrole : reply.role = .assistant)
    (hfree : CollisionFree sha256 (causalInputs sha256 shown ++ causalInputs sha256 messages))
    (hdiffer : visibleHistory messages ≠ visibleHistory shown) :
    findUniqueCausalPrefix sha256 messages (turnsRoot sha256 (before ++ [reply])) = none := by
  cases hfound : findUniqueCausalPrefix sha256 messages (turnsRoot sha256 (before ++ [reply])) with
  | none => rfl
  | some stop =>
    obtain ⟨earlier, turn, later, hturns, hassistant, hlater, hequal⟩ :=
      exists_turns_of_findUnique hfound
    refine absurd ?_ hdiffer
    have hsound := sound_of_causalTurns hturns
    rw [causalInputs_eq hshown, causalInputs_eq hturns] at hfree
    have hinputs := turnsInputs_subset sha256 (earlier ++ [turn]) later
    rw [List.append_assoc, List.singleton_append] at hinputs
    have hmeaning := turnsRoot_inj huniform
      (fun t ht => hsound t (List.append_subset.mpr ⟨List.subset_append_left _ _,
        List.subset_append_of_subset_right _ (by simp)⟩ ht))
      (sound_of_causalTurns hshown)
      (hfree.mono (List.append_subset.mpr ⟨List.subset_append_of_subset_right _ hinputs,
        List.subset_append_left _ _⟩)) hequal
    unfold visibleHistory
    rw [hturns, hshown, Option.map_some, Option.map_some, rdropWhile_reply hassistant hlater,
      rdropWhile_reply hrole fun t ht => absurd ht List.not_mem_nil, hmeaning]

theorem causalTurns_continued {H D S : List Message} {d : AssistantTurnCommitment}
    (hH : ∀ m ∈ H.getLast?, causalMessageRole m ≠ some .assistant)
    (hne : D ≠ []) (hD : ∀ m ∈ D, causalMessageRole m = some .assistant)
    (hd : assistantTurnCommitment sha256 (D.flatMap (·.content)) = some d)
    (hS : ∀ m ∈ S, causalMessageRole m ≠ some .assistant)
    (hadmitted : (causalTurns (H ++ D ++ S)).isSome) :
    ∃ before reply after, causalTurns H = some before
      ∧ causalTurns (H ++ D) = some (before ++ [reply]) ∧ causalTurns S = some after
      ∧ causalTurns (H ++ D ++ S) = some (before ++ [reply] ++ after)
      ∧ reply.role = .assistant ∧ commit sha256 reply.parts = d ∧ reply.size = D.length
      ∧ ∀ turn ∈ after, turn.role ≠ .assistant := by
  obtain ⟨reply, hreply, hrole, hcommit, hsize⟩ := causalTurns_reply hne hD hd
  -- neither seam joins two messages into one turn
  have hseam : ∀ x ∈ H.getLast?, ∀ y ∈ D.head?, joinsNext x y = false := by
    intro x hx y hy
    refine Bool.eq_false_iff.mpr fun hjoins => hH x hx ?_
    obtain ⟨role, hrole, hnext, -⟩ := joinsNext_eq_true.mp hjoins
    rw [hrole, ← hnext, hD y (List.mem_of_mem_head? hy)]
  have hseam' : ∀ x ∈ (H ++ D).getLast?, ∀ y ∈ S.head?, joinsNext x y = false := by
    intro x hx y hy
    refine Bool.eq_false_iff.mpr fun hjoins => hS y (List.mem_of_mem_head? hy) ?_
    obtain ⟨role, hrole, hnext, -⟩ := joinsNext_eq_true.mp hjoins
    rw [List.getLast?_append_of_ne_nil _ hne] at hx
    rw [hnext, ← hrole, hD x (List.mem_of_mem_getLast? hx)]
  have hshown := causalTurns_append hseam
  have hall := causalTurns_append hseam'
  rw [hreply] at hshown
  cases hbefore : causalTurns H with
  | none =>
    rw [hall, hshown, hbefore] at hadmitted
    exact absurd hadmitted Bool.false_ne_true
  | some before =>
    rw [hbefore] at hshown
    rw [hshown] at hall
    cases hafter : causalTurns S with
    | none =>
      rw [hall, hafter] at hadmitted
      exact absurd hadmitted Bool.false_ne_true
    | some after =>
      rw [hafter] at hall
      refine ⟨before, reply, after, rfl, hshown, rfl, hall, hrole, hcommit, hsize, ?_⟩
      intro turn hturn hassistant
      obtain ⟨m, hm, hrole⟩ := role_of_causalTurns hafter hturn
      exact hS m hm (hrole.trans (congrArg some hassistant))

/-- **A root is made, found again and extended as the history it is of**: it is
the root of the history and the reply, is found at the end of the reply, and
the root of the next turn can be made from it. A history that shows anything
else up to its last reply is not taken for it. -/
theorem causalPrefix_continues {sha256 : List ℕ → List ℕ} (huniform : Uniform sha256 32)
    {H D S : List Message} {d : AssistantTurnCommitment}
    (hH : ∀ m ∈ H.getLast?, causalMessageRole m ≠ some .assistant)
    (hne : D ≠ []) (hD : ∀ m ∈ D, causalMessageRole m = some .assistant)
    (hd : assistantTurnCommitment sha256 (D.flatMap (·.content)) = some d)
    (hS : ∀ m ∈ S, causalMessageRole m ≠ some .assistant)
    (hadmitted : (foldCausalMessages sha256 none (H ++ D ++ S)).isSome)
    (hfree : CollisionFree sha256 (causalInputs sha256 (H ++ D ++ S))) :
    ∃ R, extendCausalPrefix sha256 none H d = some R
      ∧ (foldCausalMessages sha256 none (H ++ D)).map Prod.fst = some R
      ∧ findUniqueCausalPrefix sha256 (H ++ D ++ S) R = some (H.length + D.length)
      ∧ (∀ e, extendCausalPrefix sha256 (some R) S e
        = extendCausalPrefix sha256 none (H ++ D ++ S) e)
      ∧ ∀ M, CollisionFree sha256 (causalInputs sha256 (H ++ D) ++ causalInputs sha256 M) →
        visibleHistory M ≠ visibleHistory (H ++ D) →
          findUniqueCausalPrefix sha256 M R = none := by
  rw [foldCausalMessages_eq, Option.isSome_map] at hadmitted
  obtain ⟨before, reply, after, hbefore, hshown, hafter, hall, hrole, rfl, hsize, hsuffix⟩ :=
    causalTurns_continued hH hne hD hd hS hadmitted
  refine ⟨turnsRoot sha256 (before ++ [reply]), ?_, ?_, ?_, ?_, ?_⟩
  · rw [extendCausalPrefix_eq, hbefore, turnsRoot_concat, stepRoot, hrole]
    rfl
  · rw [foldCausalMessages_eq, hshown]
    rfl
  · rw [findUnique_of_turns huniform hall hrole hsuffix hfree, sum_size_causalTurns hbefore, hsize]
  · intro e
    rw [extendCausalPrefix_eq, extendCausalPrefix_eq, hafter, hall, Option.map_some,
      Option.map_some, List.foldl_append (l := before ++ [reply])]
    rfl
  · exact fun M hfreeM hdiffer => findUnique_eq_none huniform hshown hrole hfreeM hdiffer

end Continue

/-- SHA-256 at what is hashed for `conversation`, by the fingerprint. -/
def recordedDigests : List (ℕ × ℕ) :=
  [(1241995964620309278,
    0x62458f83658590dd6774fbdf20ce3cff80a65bea49c13c42c238ba1dfbeb624e),
   (974638422872461521,
    0x989eaaf7ae1f69c96426c0cd28d7fab04ce68c6078ef2e595c4f30da55d986f0),
   (1263833021393799795,
    0xcacac2fe664e7f77d85e6fd1e0a5ca07db30619b9288e0440eff90d71ba64de2),
   (924739238202983117,
    0x1f23864ba3d8382d0612e84c8279ae4521553c7c4f5f73a872f65136e078f2ff),
   (235962101266633560,
    0x633958c05069c201d52502b7b4e324a407216744f2b2dece1e43fec4ac82562d),
   (1281994478198552570,
    0x04cb1b293e3b279eda0bc8a4608a274839ad95b5d12eeafd5cbe7f921c3238d4),
   (924739238202981781,
    0xf911e3c45d258bb9f9e43095914f9efd083be3fc96fb8306e4e4ba3e159305ef),
   (789341363737792232,
    0xa4ca12373eda3effc5ba3e9f860926a1a06c15a8f4aa1387b11a599ece86a465),
   (924739238202988001,
    0x3d442d000a68417358689cde4b3f94fd77d0a3eba0b92ae90fcca17d8d39e6b4),
   (904332188123329498,
    0x89a5da001b1cb4b0de610d5edacba2923a800f6f0e2537f73735e7e17386a5ac),
   (424431212338256774,
    0xd4e8bdb21207e57c277493202d58103d085974f7718828277c7fc26cff62c0a2),
   (344916698075828880,
    0xcc60f3b625c5cb20c6817e51cc0408f61bce74c095ed9646d5dad1a69d37bf13),
   (1544746716598230814,
    0x2383d4334326afba0552dfb6c0a882b7628e61947c4b3012f20c909f1bf19010),
   (1156004813643454735,
    0x0c2b14637604023c6aaad6c4c98db888bc7223d67981e3fddb0dbff267c52764),
   (1669938548968315228,
    0xd97c1ecce841fe50d44effa2f31b42fb3c01d440e9dc4a362a737fc995f5cc9d),
   (625097131581679547,
    0xf7ee3da2601c7a04a4aa6b26b0b5b10c9290188674b90f0d5e6d63533611218b),
   (1930664239099648947,
    0x9ae17c34dcafe6649e69a979e9877337c1fb99639800ed81837573e3915c394c),
   (510066333565030697,
    0x20afa8da9cd6c12e470902bcc62709bcec59416c78b1b728df2a695a10b9c0c0),
   (1472107133848976802,
    0x2d0860f84832c265825d0d000bc3471ab6f71d46ce745f5b2325628d82ee6509),
   (1833125057157399216,
    0xa8b8461e5d767885bc731c3cdfe39e02057a5ca29ae60f3a9dbb4b247392cfc7),
   (1544746716481444111,
    0x3e270a48da68bd9d661c1629f1f44f523723b0d37e603e27102c0db74c64181c)]

def recordedSha256 : List ℕ → List ℕ := tabulated recordedDigests

def spoken (role : Role) (text : String) : Message := { role, content := [.text text []] }

/-- A question, and a search for the answer. -/
def searching : List Message :=
  [spoken .user "hi",
    { role := .assistant, content := [.toolCall "c1" "search" "{}" false false []] },
    { role := .tool, content := [.toolResult "c1" (some "search") (.text "found") false []] }]

/-- The reply, in two messages. -/
def replying : List Message := [spoken .assistant "let me see", spoken .assistant "it is here"]

def conversation : List Message := searching ++ replying ++ [spoken .user "more"]

/-- A conversation of five turns, one of which is of two messages. -/
theorem causalPrefix_continues_greeting :
    ∃ R, extendCausalPrefix recordedSha256 none searching
        (commit recordedSha256 [{ tag := 1, fields := [bytes "let me see"] },
          { tag := 1, fields := [bytes "it is here"] }]) = some R
      ∧ (foldCausalMessages recordedSha256 none (searching ++ replying)).map Prod.fst = some R
      ∧ findUniqueCausalPrefix recordedSha256 conversation R = some (3 + 2)
      ∧ (∀ e, extendCausalPrefix recordedSha256 (some R) [spoken .user "more"] e
        = extendCausalPrefix recordedSha256 none conversation e)
      ∧ ∀ M, CollisionFree recordedSha256
          (causalInputs recordedSha256 (searching ++ replying) ++ causalInputs recordedSha256 M) →
        visibleHistory M ≠ visibleHistory (searching ++ replying) →
          findUniqueCausalPrefix recordedSha256 M R = none :=
  causalPrefix_continues (uniform_tabulated _) (by decide) (by decide) (by decide)
    (by decide +kernel) (by decide) (by decide +kernel) (by unfold CollisionFree; decide +kernel)

/-! ## What is left out -/

/-- A result of a user, denied for no reason. -/
def unexplained : Message :=
  { role := .user
    content := [.toolResult "c1" (some "search") (.executionDenied none) false []] }

/-- The result of a tool without a name, denied for an empty reason. -/
def explained : Message :=
  { role := .tool, content := [.toolResult "c1" none (.executionDenied (some "")) false []] }

def deniedTurn : CausalTurn :=
  { role := .tool
    said := [{ part := (CausalItem.toolResult "c1" "execution_denied" "" false).part
               meaningful := true }]
    items := [.toolResult "c1" "execution_denied" "" false]
    size := 1 }

def acknowledgedTurn : CausalTurn :=
  { role := .assistant
    said := [{ part := (CausalItem.text "ok").part, meaningful := true }]
    items := [.text "ok"]
    size := 1 }

/-- Whatever the hash, a history with another role, another tool name and
another reason is taken for the one a root was made of. -/
theorem causalPrefix_overlooks_reason :
    unexplained.role ≠ explained.role ∧ unexplained.content ≠ explained.content
      ∧ ∀ sha256 : List ℕ → List ℕ,
        ((assistantTurnCommitment sha256 (spoken .assistant "ok").content).bind fun d =>
          (extendCausalPrefix sha256 none [unexplained] d).bind
            (findUniqueCausalPrefix sha256 [explained, spoken .assistant "ok"])) = some 2 := by
  refine ⟨by decide, by simp [unexplained, explained], fun sha256 => ?_⟩
  have hcommit : assistantTurnCommitment sha256 (spoken .assistant "ok").content
      = some (commit sha256 acknowledgedTurn.parts) :=
    assistantTurnCommitment_eq_some.mpr
      ⟨acknowledgedTurn.said, rfl, by decide, by decide, rfl⟩
  have hroot : extendCausalPrefix sha256 none [unexplained] (commit sha256 acknowledgedTurn.parts)
      = some (turnsRoot sha256 [deniedTurn, acknowledgedTurn]) := by
    rw [extendCausalPrefix_eq]
    rfl
  have hfold : foldCausalMessages sha256 none [explained, spoken .assistant "ok"]
      = some (turnsRoot sha256 [deniedTurn, acknowledgedTurn],
        [{ stop := 1, role := .tool, root := turnsRoot sha256 [deniedTurn] }]
          ++ { stop := 2, role := .assistant
               root := turnsRoot sha256 [deniedTurn, acknowledgedTurn] } :: []) := by
    rw [foldCausalMessages_eq]
    rfl
  rw [hcommit, Option.bind_some, hroot, Option.bind_some]
  refine findUnique_eq_some hfold rfl rfl (fun o ho hassistant => ?_)
    (fun o ho => absurd ho List.not_mem_nil)
  rw [List.mem_singleton.mp ho] at hassistant
  exact absurd hassistant (show Role.tool ≠ .assistant by decide)

end BitRouter.Gateway
