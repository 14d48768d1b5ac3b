import BitRouter.Gateway.Collect

/-!
# Where the parts of a stream go

The outline of a stream says which block each of its deltas is addressed to,
from the parts alone: the block that is open, else the last block if it is of
the same kind, else a new one. The collector places its content by it
(`Placed.observe`), so what it makes of the deltas can be compared with the
deltas addressed to each block.
-/

namespace BitRouter.Gateway

open Ai

/-- What a block is to the deltas of a stream. -/
inductive Kind
  | text
  | reasoning
  /-- A call whose fragments are streamed. -/
  | call (id : String)
  | other
  deriving DecidableEq

def kind : Content → Kind
  | .text _ _ => .text
  | .toolCall id _ _ executed _ _ => if executed then .other else .call id
  | .other (.reasoning _ _ _) => .reasoning
  | _ => .other

/-- The text deltas add to. -/
def body : Content → String
  | .text text _ => text
  | .toolCall _ _ arguments executed _ _ => if executed then "" else arguments
  | .other (.reasoning text _ _) => text
  | _ => ""

/-- The text of the block at an index, if there is one. -/
def bodyAt (content : List Content) (i : ℕ) : String := (content[i]?.map body).getD ""

/-! ## The outline of a stream -/

/-- The lane of a reasoning delta: the summary, the summary after the end of
its block, and the rest. -/
inductive Lane
  | summary
  | late
  | text
  deriving DecidableEq

/-- **The outline of a stream**: the kinds of its blocks, the blocks that are
open, the reasoning blocks that were closed, and the reasoning deltas with the
block each is addressed to. -/
structure Outline where
  blocks : List Kind := []
  text : Option (String × ℕ) := none
  reasoning : Option (String × ℕ) := none
  closed : List ℕ := []
  deltas : List (ℕ × Lane × String) := []

def address (blocks : List Kind) (k : Kind) (block : Option (String × ℕ)) : ℕ :=
  match block with
  | some (_, i) => i
  | none => if blocks.getLast? = some k then blocks.length - 1 else blocks.length

/-- The blocks, with the addressed one. -/
def place (blocks : List Kind) (k : Kind) (i : ℕ) : List Kind :=
  if i < blocks.length then blocks else blocks ++ [k]

namespace Outline

/-- The lane of a delta addressed to a block. -/
def laneOf (o : Outline) (i : ℕ) (sourceKind : Option ReasoningTextKind) : Lane :=
  if sourceKind = some .summary then if i ∈ o.closed then .late else .summary else .text

/-- **The outline after one more part.** -/
def step (o : Outline) : StreamPart → Outline
  | .other (.textStart id) =>
    { o with blocks := o.blocks ++ [.text], text := some (id, o.blocks.length) }
  | .textDelta _ => { o with blocks := place o.blocks .text (address o.blocks .text o.text) }
  | .other (.textEnd _) => { o with text := none }
  | .other (.reasoningStart id _) =>
    { o with blocks := o.blocks ++ [.reasoning], reasoning := some (id, o.blocks.length) }
  | .other (.reasoningDelta text sourceKind) =>
    { o with
      blocks := place o.blocks .reasoning (address o.blocks .reasoning o.reasoning)
      deltas := o.deltas ++ [(address o.blocks .reasoning o.reasoning,
        o.laneOf (address o.blocks .reasoning o.reasoning) sourceKind, text)] }
  | .other (.reasoningEnd _ _ _) =>
    { o with reasoning := none, closed := o.closed ++ (o.reasoning.map Prod.snd).toList }
  | .toolCallDelta id _ _ _ =>
    { o with blocks := if .call id ∈ o.blocks then o.blocks else o.blocks ++ [.call id] }
  | .serverToolCall _ _ _ _ _ => { o with blocks := o.blocks ++ [.other] }
  | .serverToolResult _ _ _ _ => { o with blocks := o.blocks ++ [.other] }
  | .other (.file _ _) => { o with blocks := o.blocks ++ [.other] }
  | .other (.source _) => { o with blocks := o.blocks ++ [.other] }
  | _ => o

end Outline

def outline (parts : List StreamPart) : Outline := parts.foldl Outline.step {}

/-- The deltas of a block on some lanes, in the order of their arrival. -/
def lane (deltas : List (ℕ × Lane × String)) (i : ℕ) (lanes : List Lane) : String :=
  String.join ((deltas.filter (fun d => d.1 = i ∧ d.2.1 ∈ lanes)).map (·.2.2))

/-- **The summary deltas addressed to a block.** -/
def summaryOf (parts : List StreamPart) (i : ℕ) : String :=
  lane (outline parts).deltas i [.summary, .late]

/-- The other reasoning deltas addressed to a block. -/
def reasoningOf (parts : List StreamPart) (i : ℕ) : String :=
  lane (outline parts).deltas i [.text]

def earlySummary (parts : List StreamPart) (i : ℕ) : String :=
  lane (outline parts).deltas i [.summary]

def lateSummary (parts : List StreamPart) (i : ℕ) : String :=
  lane (outline parts).deltas i [.late]

/-! ## Lists of blocks -/

section Blocks

variable {blocks : List Kind} {k x : Kind} {i : ℕ}

theorem getElem?_push : (blocks ++ [k])[i]? = some x
    ↔ blocks[i]? = some x ∨ (i = blocks.length ∧ k = x) := by
  rw [List.getElem?_append]
  split
  · rename_i hlt
    exact ⟨Or.inl, fun h => h.resolve_right (fun h => absurd h.1 (Nat.ne_of_lt hlt))⟩
  · rename_i hge
    have hnone : blocks[i]? = none := List.getElem?_eq_none (Nat.le_of_not_lt hge)
    rw [hnone, List.getElem?_singleton]
    split
    · rename_i hzero
      have heq : i = blocks.length := by omega
      simp [heq]
    · rename_i hne
      have hlen : i ≠ blocks.length := by omega
      simp [hlen]

theorem lt_length_of_getElem? (h : blocks[i]? = some x) : i < blocks.length :=
  (List.getElem?_eq_some_iff.mp h).1

theorem getElem?_place_of_some (h : blocks[i]? = some x) (j : ℕ) :
    (place blocks k j)[i]? = some x := by
  unfold place
  split
  · exact h
  · exact getElem?_push.mpr (Or.inl h)

end Blocks

/-! ## Blocks that are open -/

/-- An open text block is the last text block. -/
def OpenText (blocks : List Kind) (block : Option (String × ℕ)) : Prop :=
  ∀ b, block = some b → blocks[b.2]? = some .text ∧ ∀ j, b.2 < j → blocks[j]? ≠ some .text

/-- An open reasoning block has not been closed. -/
def OpenReasoning (blocks : List Kind) (closed : List ℕ) (block : Option (String × ℕ)) : Prop :=
  ∀ b, block = some b → blocks[b.2]? = some .reasoning ∧ b.2 ∉ closed

/-- The calls are found at their blocks. -/
def Indexed (blocks : List Kind) (indices : List (String × ℕ)) : Prop :=
  ∀ id i, IndexMap.get indices id = some i ↔ blocks[i]? = some (.call id)

section Open

variable {blocks : List Kind} {closed : List ℕ} {block : Option (String × ℕ)} {k : Kind}
  {indices : List (String × ℕ)}

theorem OpenText.none : OpenText blocks none := by simp [OpenText]

theorem OpenText.push (h : OpenText blocks block) (hk : k ≠ .text) :
    OpenText (blocks ++ [k]) block := by
  intro b hb
  obtain ⟨hat, hlast⟩ := h b hb
  refine ⟨getElem?_push.mpr (Or.inl hat), fun j hj hfalse => ?_⟩
  rcases getElem?_push.mp hfalse with hfalse | ⟨-, hfalse⟩
  · exact hlast j hj hfalse
  · exact hk hfalse

theorem OpenText.start (id : String) : OpenText (blocks ++ [.text]) (some (id, blocks.length)) := by
  rintro b hb
  obtain rfl := Option.some.inj hb
  refine ⟨getElem?_push.mpr (Or.inr ⟨rfl, rfl⟩), fun j hj hfalse => ?_⟩
  have hlt := lt_length_of_getElem? hfalse
  rw [List.length_append, List.length_singleton] at hlt
  omega

theorem OpenReasoning.none : OpenReasoning blocks closed none := by simp [OpenReasoning]

theorem OpenReasoning.push (h : OpenReasoning blocks closed block) (k : Kind) :
    OpenReasoning (blocks ++ [k]) closed block := fun b hb =>
  ⟨getElem?_push.mpr (Or.inl (h b hb).1), (h b hb).2⟩

theorem OpenReasoning.start (id : String) (hclosed : ∀ i ∈ closed, i < blocks.length) :
    OpenReasoning (blocks ++ [.reasoning]) closed (some (id, blocks.length)) := by
  rintro b hb
  obtain rfl := Option.some.inj hb
  exact ⟨getElem?_push.mpr (Or.inr ⟨rfl, rfl⟩), fun hmem => Nat.lt_irrefl _ (hclosed _ hmem)⟩

theorem Indexed.push (h : Indexed blocks indices) (hk : ∀ id, k ≠ .call id) :
    Indexed (blocks ++ [k]) indices := by
  intro id i
  rw [h id i, getElem?_push]
  exact ⟨Or.inl, fun h => h.resolve_right (fun h => hk id h.2)⟩

theorem Indexed.mem (h : Indexed blocks indices) (id : String) :
    .call id ∈ blocks ↔ ∃ i, IndexMap.get indices id = some i := by
  rw [List.mem_iff_getElem?]
  exact exists_congr (fun i => (h id i).symm)

theorem Indexed.start (h : Indexed blocks indices) {id : String}
    (hid : IndexMap.get indices id = .none) :
    Indexed (blocks ++ [.call id]) (IndexMap.insert indices id blocks.length) := by
  intro id' i
  rw [IndexMap.get_insert, getElem?_push]
  split
  · rename_i heq
    subst heq
    have hnot : blocks[i]? ≠ some (.call id) := by
      intro hfalse
      rw [(h id i).mpr hfalse] at hid
      simp at hid
    simp only [hnot, false_or, and_true, Option.some.injEq]
    exact eq_comm
  · rename_i hne
    rw [h id' i]
    refine ⟨Or.inl, fun h => h.resolve_right (fun h => hne ?_)⟩
    simpa using h.2

end Open

/-! ## The outline in itself -/

section Address

variable {blocks : List Kind} {k : Kind} {block : Option (String × ℕ)}

theorem address_cases (hopen : ∀ b, block = some b → blocks[b.2]? = some k) :
    (blocks[address blocks k block]? = some k ∧ place blocks k (address blocks k block) = blocks)
      ∨ (block = none ∧ address blocks k block = blocks.length
        ∧ place blocks k (address blocks k block) = blocks ++ [k]) := by
  have hthere : ∀ i, blocks[i]? = some k → place blocks k i = blocks := fun i hi =>
    if_pos (lt_length_of_getElem? hi)
  cases block with
  | some b => exact Or.inl ⟨hopen b rfl, hthere _ (hopen b rfl)⟩
  | none =>
    by_cases hlast : blocks.getLast? = some k
    · have haddress : address blocks k none = blocks.length - 1 := if_pos hlast
      rw [List.getLast?_eq_getElem?] at hlast
      rw [haddress]
      exact Or.inl ⟨hlast, hthere _ hlast⟩
    · have haddress : address blocks k none = blocks.length := if_neg hlast
      rw [haddress]
      exact Or.inr ⟨rfl, rfl, if_neg (Nat.lt_irrefl _)⟩

theorem getElem?_place_address (hopen : ∀ b, block = some b → blocks[b.2]? = some k) :
    (place blocks k (address blocks k block))[address blocks k block]? = some k := by
  rcases address_cases hopen with ⟨hat, hplace⟩ | ⟨-, haddress, hplace⟩
  · rw [hplace]
    exact hat
  · rw [hplace, haddress]
    exact getElem?_push.mpr (Or.inr ⟨rfl, rfl⟩)

end Address

theorem lane_append (deltas : List (ℕ × Lane × String)) (d : ℕ × Lane × String) (i : ℕ)
    (lanes : List Lane) :
    lane (deltas ++ [d]) i lanes
      = lane deltas i lanes ++ if d.1 = i ∧ d.2.1 ∈ lanes then d.2.2 else "" := by
  unfold lane
  rw [List.filter_append, List.map_append, String.join_append]
  congr 1
  by_cases h : d.1 = i ∧ d.2.1 ∈ lanes
  · rw [if_pos h, List.filter_cons_of_pos (by simpa using h)]
    simp
  · rw [if_neg h, List.filter_cons_of_neg (by simpa using h)]
    simp

/-- A block nothing is addressed to. -/
theorem lane_eq_empty {deltas : List (ℕ × Lane × String)} {i : ℕ} {lanes : List Lane}
    (h : ∀ d ∈ deltas, d.1 = i → d.2.1 ∉ lanes) : lane deltas i lanes = "" := by
  unfold lane
  rw [List.filter_eq_nil_iff.mpr, List.map_nil, String.join_nil]
  intro d hd hmem
  have hmem : d.1 = i ∧ d.2.1 ∈ lanes := by simpa using hmem
  exact h d hd hmem.1 hmem.2

/-- **What holds of every outline.** -/
structure Outline.Wf (o : Outline) : Prop where
  text : OpenText o.blocks o.text
  reasoning : OpenReasoning o.blocks o.closed o.reasoning
  closed : ∀ i ∈ o.closed, o.blocks[i]? = some .reasoning
  placed : ∀ d ∈ o.deltas, o.blocks[d.1]? = some .reasoning
  late : ∀ d ∈ o.deltas, d.2.1 = .late → d.1 ∈ o.closed
  split : ∀ i, lane o.deltas i [.summary, .late]
    = lane o.deltas i [.summary] ++ lane o.deltas i [.late]

namespace Outline.Wf

variable {o : Outline}

theorem empty : ({} : Outline).Wf :=
  ⟨OpenText.none, OpenReasoning.none, by simp, by simp, by simp, fun _ => rfl⟩

theorem push (h : o.Wf) {k : Kind} (hk : k ≠ .text) : { o with blocks := o.blocks ++ [k] }.Wf :=
  ⟨h.text.push hk, h.reasoning.push k, fun i hi => getElem?_push.mpr (Or.inl (h.closed i hi)),
    fun d hd => getElem?_push.mpr (Or.inl (h.placed d hd)), h.late, h.split⟩

theorem closed_lt (h : o.Wf) : ∀ i ∈ o.closed, i < o.blocks.length := fun i hi =>
  lt_length_of_getElem? (h.closed i hi)

theorem late_nil (h : o.Wf) {i : ℕ} (hi : i ∉ o.closed) : lane o.deltas i [.late] = "" :=
  lane_eq_empty (fun d hd hdi hlate => hi (hdi ▸ h.late d hd (by simpa using hlate)))

theorem reasoningDelta (h : o.Wf) (text : String) (sourceKind : Option ReasoningTextKind) :
    (o.step (.other (.reasoningDelta text sourceKind))).Wf := by
  rw [Outline.step]
  have hat := getElem?_place_address (fun b hb => (h.reasoning b hb).1)
  generalize address o.blocks Kind.reasoning o.reasoning = i at hat ⊢
  have hkeep : ∀ j, o.blocks[j]? = some Kind.reasoning →
      (place o.blocks Kind.reasoning i)[j]? = some Kind.reasoning := fun j hj =>
    getElem?_place_of_some hj i
  refine ⟨?_, fun b hb => ⟨hkeep _ (h.reasoning b hb).1, (h.reasoning b hb).2⟩,
    fun j hj => hkeep j (h.closed j hj), fun d hd => ?_, fun d hd hlate => ?_, fun j => ?_⟩
  · dsimp only
    unfold place
    split
    · exact h.text
    · exact h.text.push (by simp)
  · rcases List.mem_append.mp hd with hd | hd
    · exact hkeep _ (h.placed d hd)
    · obtain rfl := List.mem_singleton.mp hd
      exact hat
  · rcases List.mem_append.mp hd with hd | hd
    · exact h.late d hd hlate
    · obtain rfl := List.mem_singleton.mp hd
      dsimp only [Outline.laneOf] at hlate
      split at hlate
      · split at hlate
        · assumption
        · simp at hlate
      · simp at hlate
  · dsimp only
    rw [lane_append, lane_append, lane_append, h.split j]
    -- an early summary delta finds no late one before it
    by_cases hj : i = j
    · subst hj
      unfold Outline.laneOf
      split
      · split
        · simp [String.append_assoc]
        · rename_i hopen
          rw [h.late_nil hopen]
          simp
      · simp
    · simp [hj]

/-- **Every outline is well-formed.** -/
theorem step (h : o.Wf) (part : StreamPart) : (o.step part).Wf := by
  cases part with
  | textDelta text =>
    rw [Outline.step]
    rcases address_cases (fun b hb => (h.text b hb).1) with ⟨-, hplace⟩ | ⟨hnone, -, hplace⟩
    · rw [hplace]
      exact h
    · rw [hplace]
      refine ⟨?_, h.reasoning.push _, fun i hi => getElem?_push.mpr (Or.inl (h.closed i hi)),
        fun d hd => getElem?_push.mpr (Or.inl (h.placed d hd)), h.late, h.split⟩
      rw [hnone]
      exact OpenText.none
  | toolCallDelta id name arguments metadata =>
    rw [Outline.step]
    split
    · exact h
    · exact h.push (by simp)
  | serverToolCall => exact h.push (by simp)
  | serverToolResult => exact h.push (by simp)
  | usage => exact h
  | finish => exact h
  | responseCompleted => exact h
  | other part =>
    cases part with
    | textStart id =>
      exact ⟨OpenText.start id, h.reasoning.push _,
        fun i hi => getElem?_push.mpr (Or.inl (h.closed i hi)),
        fun d hd => getElem?_push.mpr (Or.inl (h.placed d hd)), h.late, h.split⟩
    | textEnd id => exact ⟨OpenText.none, h.reasoning, h.closed, h.placed, h.late, h.split⟩
    | reasoningStart id protocol =>
      exact ⟨h.text.push (by simp), OpenReasoning.start id h.closed_lt,
        fun i hi => getElem?_push.mpr (Or.inl (h.closed i hi)),
        fun d hd => getElem?_push.mpr (Or.inl (h.placed d hd)), h.late, h.split⟩
    | reasoningDelta text sourceKind => exact h.reasoningDelta text sourceKind
    | reasoningEnd id signature native =>
      refine ⟨h.text, OpenReasoning.none, fun i hi => ?_, h.placed,
        fun d hd hlate => List.mem_append_left _ (h.late d hd hlate), h.split⟩
      rcases List.mem_append.mp hi with hi | hi
      · exact h.closed i hi
      · obtain ⟨b, hb, rfl⟩ := Option.map_eq_some_iff.mp (Option.mem_toList.mp hi)
        exact (h.reasoning b hb).1
    | file => exact h.push (by simp)
    | source => exact h.push (by simp)
    | responseStarted => exact h

end Outline.Wf

/-! ## Content -/

section ContentLemmas

variable {content : List Content} {b b' : Content} {i : ℕ}

theorem getElem?_map_kind : (content.map kind)[i]? = content[i]?.map kind := List.getElem?_map

theorem bodyAt_push (b : Content) (j : ℕ) :
    bodyAt (content ++ [b]) j = if j = content.length then body b else bodyAt content j := by
  unfold bodyAt
  rw [List.getElem?_append]
  split
  · rename_i hlt
    rw [if_neg (Nat.ne_of_lt hlt)]
  · rename_i hge
    rw [List.getElem?_singleton]
    split
    · rename_i hzero
      rw [if_pos (by omega)]
      rfl
    · rename_i hne
      rw [if_neg (by omega), List.getElem?_eq_none (Nat.le_of_not_lt hge)]

theorem bodyAt_set (h : content[i]? = some b) (b' : Content) (j : ℕ) :
    bodyAt (content.set i b') j = if j = i then body b' else bodyAt content j := by
  unfold bodyAt
  have hlt := (List.getElem?_eq_some_iff.mp h).1
  rw [List.getElem?_set]
  split
  · rename_i heq
    subst heq
    rw [if_pos rfl]
    rfl
  · rename_i hne
    rw [if_neg (fun heq => hne heq.symm)]

theorem bodyAt_of_getElem? (h : content[i]? = some b) : bodyAt content i = body b := by
  rw [bodyAt, h]
  rfl

/-- Replacing a block changes nothing a projection cannot tell apart. -/
theorem filterMap_set {β : Type} (f : Content → Option β) (h : content[i]? = some b)
    (hf : f b' = f b) : (content.set i b').filterMap f = content.filterMap f := by
  induction content generalizing i with
  | nil => rfl
  | cons a content ih =>
    cases i with
    | zero =>
      obtain rfl : a = b := by simpa using h
      rw [List.set_cons_zero, List.filterMap_cons, List.filterMap_cons, hf]
    | succ i =>
      rw [List.set_cons_succ, List.filterMap_cons, List.filterMap_cons]
      rw [ih h]

theorem map_kind_set (h : content[i]? = some b) (hk : kind b' = kind b) :
    (content.set i b').map kind = content.map kind := by
  have := filterMap_set (fun c => some (kind c)) h (congrArg some hk)
  simpa [List.filterMap_eq_map'] using this

end ContentLemmas

/-! ## Appending text -/

/-- The kind of a lane of text. -/
def kindOf (reasoning : Bool) : Kind := if reasoning then .reasoning else .text

theorem extendBlock_eq_some {text : String} {reasoning : Bool} {b b' : Content}
    (h : extendBlock text reasoning b = some b') :
    kind b = kindOf reasoning ∧ kind b' = kindOf reasoning ∧ body b' = body b ++ text := by
  unfold extendBlock at h
  split at h
  · cases reasoning with
    | true => simp at h
    | false =>
      obtain rfl : _ = b' := by simpa using h
      exact ⟨rfl, rfl, rfl⟩
  · cases reasoning with
    | false => simp at h
    | true =>
      obtain rfl : _ = b' := by simpa using h
      exact ⟨rfl, rfl, rfl⟩
  · simp at h

theorem extendBlock_eq_none {text : String} {reasoning : Bool} {b : Content}
    (h : extendBlock text reasoning b = none) : kind b ≠ kindOf reasoning := by
  unfold extendBlock at h
  split at h
  · cases reasoning with
    | true => simp [kind, kindOf]
    | false => simp at h
  · cases reasoning with
    | false => simp [kind, kindOf]
    | true => simp at h
  · rename_i htext hreasoning
    cases reasoning with
    | true =>
      intro hfalse
      match b, hfalse with
      | .other (.reasoning t m n), _ => exact hreasoning t m n rfl
      | .toolCall _ _ _ executed _ _, hfalse =>
        cases executed <;> simp [kind, kindOf] at hfalse
    | false =>
      intro hfalse
      match b, hfalse with
      | .text t m, _ => exact htext t m rfl
      | .toolCall _ _ _ executed _ _, hfalse =>
        cases executed <;> simp [kind, kindOf] at hfalse

theorem kind_freshBlock (text : String) (reasoning : Bool) :
    kind (freshBlock text reasoning) = kindOf reasoning := by
  cases reasoning <;> rfl

theorem body_freshBlock (text : String) (reasoning : Bool) :
    body (freshBlock text reasoning) = text := by
  cases reasoning <;> rfl

/-- **What appending text does**: it extends the addressed block, or makes
it. -/
theorem appendText_cases {content content' : List Content} {block : Option (String × ℕ)}
    {text : String} {reasoning : Bool} {i : ℕ}
    (h : appendText content (block.map Prod.snd) text reasoning = .ok (i, content')) :
    i = address (content.map kind) (kindOf reasoning) block
      ∧ ((∃ b b', content[i]? = some b ∧ extendBlock text reasoning b = some b'
          ∧ content' = content.set i b')
        ∨ (block = none ∧ i = content.length
          ∧ content' = content ++ [freshBlock text reasoning])) := by
  unfold appendText at h
  dsimp only at h
  split at h
  · rename_i b' hb
    obtain ⟨rfl, rfl⟩ : _ ∧ _ := by simpa using h
    obtain ⟨b, hat, hext⟩ := Option.bind_eq_some_iff.mp hb
    refine ⟨?_, Or.inl ⟨b, b', hat, hext, rfl⟩⟩
    cases block with
    | some b => rfl
    | none =>
      have hkind : (content.map kind).getLast? = some (kindOf reasoning) := by
        rw [List.getLast?_eq_getElem?, List.length_map, getElem?_map_kind]
        simp only [Option.map_none, Option.getD_none] at hat
        rw [hat, Option.map_some, (extendBlock_eq_some hext).1]
      simp [address, hkind]
  · rename_i hb
    cases block with
    | some b => simp at h
    | none =>
      obtain ⟨rfl, rfl⟩ : _ ∧ _ := by simpa using h
      refine ⟨?_, Or.inr ⟨rfl, rfl, rfl⟩⟩
      have hkind : (content.map kind).getLast? ≠ some (kindOf reasoning) := by
        rw [List.getLast?_eq_getElem?, List.length_map, getElem?_map_kind]
        intro hfalse
        obtain ⟨b, hat, hkind⟩ := Option.map_eq_some_iff.mp hfalse
        simp only [Option.map_none, Option.getD_none] at hb
        rw [hat, Option.bind_some] at hb
        exact extendBlock_eq_none hb hkind
      simp only [address, if_neg hkind, List.length_map]

section Append

variable {content content' : List Content} {block : Option (String × ℕ)} {text : String}
  {reasoning : Bool} {i : ℕ}

section

variable (h : appendText content (block.map Prod.snd) text reasoning = .ok (i, content'))

include h

theorem kinds_appendText :
    content'.map kind = place (content.map kind) (kindOf reasoning) i
      ∧ (content'.map kind)[i]? = some (kindOf reasoning) := by
  obtain ⟨-, ⟨b, b', hat, hext, rfl⟩ | ⟨-, rfl, rfl⟩⟩ := appendText_cases h
  · obtain ⟨hb, hb', -⟩ := extendBlock_eq_some hext
    have hkinds := map_kind_set hat (hb'.trans hb.symm)
    have hlt := (List.getElem?_eq_some_iff.mp hat).1
    rw [hkinds, place, List.length_map, if_pos hlt, getElem?_map_kind, hat, Option.map_some, hb]
    exact ⟨rfl, rfl⟩
  · rw [List.map_append, List.map_singleton, kind_freshBlock, place, List.length_map,
      if_neg (Nat.lt_irrefl _)]
    exact ⟨rfl, getElem?_push.mpr (Or.inr ⟨(List.length_map _).symm, rfl⟩)⟩

theorem bodyAt_appendText (j : ℕ) :
    bodyAt content' j = if j = i then bodyAt content j ++ text else bodyAt content j := by
  obtain ⟨-, ⟨b, b', hat, hext, rfl⟩ | ⟨-, rfl, rfl⟩⟩ := appendText_cases h
  · rw [bodyAt_set hat, (extendBlock_eq_some hext).2.2]
    split
    · rename_i heq
      rw [heq, bodyAt_of_getElem? hat]
    · rfl
  · rw [bodyAt_push, body_freshBlock]
    split
    · rename_i heq
      have hempty : bodyAt content j = "" := by
        rw [bodyAt, List.getElem?_eq_none (Nat.le_of_eq heq.symm)]
        rfl
      rw [hempty, String.empty_append]
    · rfl

end

end Append

end BitRouter.Gateway
