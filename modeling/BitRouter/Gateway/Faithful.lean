import BitRouter.Gateway.Effect
import Mathlib.Data.List.Induction

/-!
# What a collected stream contains

The invariant of a collection (`Tracks`) compares the content with the deltas
addressed to each block. At the end of the stream a reasoning block holds the
summary that arrived after its end, the summary that arrived before it, and
the rest – in this order, so the collected content is faithful to the stream
exactly where the two parts of each summary commute
(`collectGenerate_faithful_iff`); where no summary delta arrives after the end
of its block they do.
-/

namespace BitRouter.Gateway

open Ai

/-- The fragments of a call, put together. -/
def fragments (parts : List StreamPart) (id : String) : String :=
  String.join (((parts.filterMap callFragment).filter (fun f => f.1 = id)).map Prod.snd)

def callIds (parts : List StreamPart) : List String :=
  (parts.filterMap callFragment).map Prod.fst

/-! ## Outlines of streams -/

theorem outline_concat (parts : List StreamPart) (part : StreamPart) :
    outline (parts ++ [part]) = (outline parts).step part := by
  rw [outline, List.foldl_append]
  rfl

theorem wf_outline (parts : List StreamPart) : (outline parts).Wf := by
  induction parts using List.reverseRecOn with
  | nil => exact Outline.Wf.empty
  | append_singleton parts part ih =>
    rw [outline_concat]
    exact ih.step part

variable {id : String}

section Step

variable {o : Outline} {part : StreamPart} {i : ℕ}

/-- **A part adds at most one block**, and a call only with its first
fragment. -/
theorem blocks_step_cases (o : Outline) (part : StreamPart) :
    ((o.step part).blocks = o.blocks
        ∧ ∀ id, (callFragment part).map Prod.fst = some id → .call id ∈ o.blocks)
      ∨ ∃ k, (o.step part).blocks = o.blocks ++ [k]
        ∧ ∀ id, (k = .call id ↔ (callFragment part).map Prod.fst = some id)
          ∧ (k = .call id → .call id ∉ o.blocks) := by
  have hplace : ∀ k j, (∀ id, k ≠ Kind.call id) →
      place o.blocks k j = o.blocks ∨ place o.blocks k j = o.blocks ++ [k] := by
    intro k j hk
    unfold place
    split
    · exact Or.inl rfl
    · exact Or.inr rfl
  cases part with
  | textDelta =>
    refine (hplace .text _ (by simp)).imp (fun h => ⟨h, by simp [callFragment]⟩) (fun h => ?_)
    exact ⟨_, h, by simp [callFragment]⟩
  | toolCallDelta id name arguments metadata =>
    by_cases hmem : .call id ∈ o.blocks
    · refine Or.inl ⟨if_pos hmem, fun id' hid => ?_⟩
      obtain rfl : id = id' := by simpa [callFragment] using hid
      exact hmem
    · refine Or.inr ⟨_, if_neg hmem, fun id' => ⟨by simp [callFragment], fun heq => ?_⟩⟩
      rw [← heq]
      exact hmem
  | serverToolCall => exact Or.inr ⟨_, rfl, by simp [callFragment]⟩
  | serverToolResult => exact Or.inr ⟨_, rfl, by simp [callFragment]⟩
  | usage => exact Or.inl ⟨rfl, by simp [callFragment]⟩
  | finish => exact Or.inl ⟨rfl, by simp [callFragment]⟩
  | responseCompleted => exact Or.inl ⟨rfl, by simp [callFragment]⟩
  | other part =>
    cases part with
    | textStart => exact Or.inr ⟨_, rfl, by simp [callFragment]⟩
    | textEnd => exact Or.inl ⟨rfl, by simp [callFragment]⟩
    | reasoningStart => exact Or.inr ⟨_, rfl, by simp [callFragment]⟩
    | reasoningDelta =>
      refine (hplace .reasoning _ (by simp)).imp (fun h => ⟨h, by simp [callFragment]⟩)
        (fun h => ?_)
      exact ⟨_, h, by simp [callFragment]⟩
    | reasoningEnd => exact Or.inl ⟨rfl, by simp [callFragment]⟩
    | file => exact Or.inr ⟨_, rfl, by simp [callFragment]⟩
    | source => exact Or.inr ⟨_, rfl, by simp [callFragment]⟩
    | responseStarted => exact Or.inl ⟨rfl, by simp [callFragment]⟩

theorem blocks_step {x : Kind} (h : (o.step part).blocks[i]? = some x) :
    o.blocks[i]? = some x ∨ o.blocks.length ≤ i := by
  rcases blocks_step_cases o part with ⟨hsame, -⟩ | ⟨k, hpush, -⟩
  · rw [hsame] at h
    exact Or.inl h
  · rw [hpush] at h
    exact (getElem?_push.mp h).imp_right (fun h => Nat.le_of_eq h.1.symm)

theorem call_mem_step :
    .call id ∈ (o.step part).blocks
      ↔ .call id ∈ o.blocks ∨ (callFragment part).map Prod.fst = some id := by
  rcases blocks_step_cases o part with ⟨hsame, hcall⟩ | ⟨k, hpush, hcall⟩
  · rw [hsame]
    exact ⟨Or.inl, fun h => h.elim (fun h => h) (hcall id)⟩
  · rw [hpush, List.mem_append, List.mem_singleton, eq_comm, (hcall id).1]

theorem call_step (h : (o.step part).blocks[i]? = some (.call id)) :
    o.blocks[i]? = some (.call id) ∨ (o.blocks.length ≤ i ∧ .call id ∉ o.blocks) := by
  rcases blocks_step_cases o part with ⟨hsame, -⟩ | ⟨k, hpush, hcall⟩
  · rw [hsame] at h
    exact Or.inl h
  · rw [hpush] at h
    exact (getElem?_push.mp h).imp_right
      (fun h => ⟨Nat.le_of_eq h.1.symm, (hcall id).2 h.2⟩)

/-- Text is appended to a text block, reasoning to a reasoning block, a
fragment to its call. -/
theorem back_call (hw : o.Wf) (h : (o.step part).blocks[i]? = some (.call id)) :
    back o part i = ((callFragment part).filter (fun f => f.1 = id)).elim "" Prod.snd := by
  cases part with
  | textDelta text =>
    refine if_neg (fun heq => ?_)
    have hat := getElem?_place_address (fun b hb => (hw.text b hb).1)
    rw [Outline.step, heq] at h
    simp [hat] at h
  | toolCallDelta id' name arguments metadata =>
    simp only [back, h, callFragment, Option.some.injEq, Kind.call.injEq]
    by_cases heq : id' = id
    · rw [if_pos heq.symm, Option.filter_some_pos (by simpa using heq)]
      rfl
    · rw [if_neg (fun h => heq h.symm), Option.filter_some_neg (by simpa using heq)]
      rfl
  | serverToolCall => rfl
  | serverToolResult => rfl
  | usage => rfl
  | finish => rfl
  | responseCompleted => rfl
  | other part =>
    cases part with
    | reasoningDelta text sourceKind =>
      refine if_neg (fun heq => ?_)
      have hat := getElem?_place_address (fun b hb => (hw.reasoning b hb).1)
      rw [Outline.step, heq.1] at h
      simp [hat] at h
    | _ => rfl

end Step

/-! ## The invariant of a collection -/

/-- **The content is what the deltas addressed to each block make of it.** A
reasoning block that was closed has its summary in front; otherwise the
summary is kept apart. -/
structure Tracks (c : Collector) (parts : List StreamPart) : Prop where
  mirrors : Mirrors c (outline parts)
  texts : textContent c.content = String.join (parts.filterMap textDelta)
  reasoning : ∀ i, (outline parts).blocks[i]? = some .reasoning →
    bodyAt c.content i = (if i ∈ (outline parts).closed then earlySummary parts i else "")
      ++ reasoningOf parts i
  pending : ∀ i, summaryAt c.reasoningSummaries i
    = if i ∈ (outline parts).closed then lateSummary parts i else earlySummary parts i
  calls : ∀ i id, (outline parts).blocks[i]? = some (.call id) →
    bodyAt c.content i = fragments parts id
  called : ∀ id, .call id ∈ (outline parts).blocks ↔ id ∈ callIds parts
  servers : c.content.filterMap serverCall = parts.filterMap serverPart
  usage : c.usage = (parts.filterMap usageReport).getLast?

namespace Tracks

variable {c c' : Collector} {parts : List StreamPart} {part : StreamPart} {i : ℕ}

theorem empty : Tracks {} [] := by
  refine ⟨⟨rfl, rfl, rfl, ?_, by simp, by simp [IndexMap.keys]⟩, rfl, ?_, fun i => rfl, ?_, ?_, rfl,
    rfl⟩
  · intro id i
    simp [IndexMap.get, outline]
  · simp [outline]
  · simp [outline]
  · simp [outline, callIds]

theorem length (h : Tracks c parts) : c.content.length = (outline parts).blocks.length :=
  h.mirrors.length

theorem bodyAt_of_le (h : Tracks c parts) (hi : (outline parts).blocks.length ≤ i) :
    bodyAt c.content i = "" := by
  rw [bodyAt, List.getElem?_eq_none (by rw [h.length]; exact hi)]
  rfl

theorem lane_of_le (hi : (outline parts).blocks.length ≤ i) (lanes : List Lane) :
    lane (outline parts).deltas i lanes = "" := by
  refine lane_eq_empty (fun d hd hdi => ?_)
  have hat := lt_length_of_getElem? ((wf_outline parts).placed d hd)
  exact absurd (hdi ▸ hat) (Nat.not_lt_of_le hi)

theorem bodyAt_reasoning (h : Tracks c parts)
    (hi : (outline parts).blocks[i]? = some .reasoning ∨ (outline parts).blocks.length ≤ i) :
    bodyAt c.content i = (if i ∈ (outline parts).closed then earlySummary parts i else "")
      ++ reasoningOf parts i := by
  rcases hi with hi | hi
  · exact h.reasoning i hi
  · rw [h.bodyAt_of_le hi, earlySummary, reasoningOf, lane_of_le hi, lane_of_le hi]
    split <;> rfl

/-- Only reasoning blocks are closed. -/
theorem front_eq_empty (h : Tracks c parts) (hi : (outline parts).blocks[i]? ≠ some .reasoning) :
    front c part i = "" := by
  unfold front
  split
  · refine if_neg (fun heq => hi ?_)
    obtain ⟨b, hb, rfl⟩ := Option.map_eq_some_iff.mp heq
    rw [h.mirrors.reasoningBlock] at hb
    exact ((wf_outline parts).reasoning b hb).1
  · rfl

theorem fragments_concat (parts : List StreamPart) (part : StreamPart) (id : String) :
    fragments (parts ++ [part]) id
      = fragments parts id ++ ((callFragment part).filter
          (fun f => f.1 = id)).elim "" Prod.snd := by
  unfold fragments
  cases hpart : callFragment part with
  | none => simp [hpart]
  | some f =>
    by_cases hid : f.1 = id
    · simp [hpart, hid, Option.filter]
    · simp [hpart, hid, Option.filter]

theorem fragments_eq_empty (h : id ∉ callIds parts) : fragments parts id = "" := by
  unfold fragments
  rw [List.filter_eq_nil_iff.mpr, List.map_nil, String.join_nil]
  intro f hf hid
  exact h (List.mem_map.mpr ⟨f, hf, by simpa using hid⟩)

section

variable (h : Tracks c parts)

include h

theorem calls_step (he : Effect c (outline parts) part c')
    (hi : ((outline parts).step part).blocks[i]? = some (.call id)) :
    bodyAt c'.content i = fragments (parts ++ [part]) id := by
  have hfront : front c part i = "" := by
    refine h.front_eq_empty (fun hfalse => ?_)
    rcases blocks_step hi with hold | hnew
    · rw [hold] at hfalse
      simp at hfalse
    · exact absurd (lt_length_of_getElem? hfalse) (Nat.not_lt_of_le hnew)
  have hbody : bodyAt c.content i = fragments parts id := by
    rcases call_step hi with hold | ⟨hnew, hnot⟩
    · exact h.calls i id hold
    · rw [h.bodyAt_of_le hnew, fragments_eq_empty (fun hmem => hnot ((h.called id).mpr hmem))]
  rw [he.bodies, hfront, String.empty_append, hbody, back_call (wf_outline parts) hi,
    fragments_concat]

theorem reasoning_delta {text : String} {sourceKind : Option ReasoningTextKind}
    (he : Effect c (outline parts) (.other (.reasoningDelta text sourceKind)) c')
    (hi : (outline (parts ++ [.other (.reasoningDelta text sourceKind)])).blocks[i]?
      = some .reasoning) :
    bodyAt c'.content i
      = (if i ∈ (outline (parts ++ [.other (.reasoningDelta text sourceKind)])).closed then
          earlySummary (parts ++ [.other (.reasoningDelta text sourceKind)]) i else "")
        ++ reasoningOf (parts ++ [.other (.reasoningDelta text sourceKind)]) i := by
  rw [outline_concat] at hi
  rw [he.bodies, h.bodyAt_reasoning (blocks_step hi)]
  simp only [earlySummary, reasoningOf, outline_concat, Outline.step, lane_append, front, back,
    Outline.laneOf]
  generalize address (outline parts).blocks .reasoning (outline parts).reasoning = j
  by_cases hj : i = j
  · subst hj
    by_cases hsummary : sourceKind = some .summary
    · by_cases hclosed : i ∈ (outline parts).closed <;> simp [hsummary, hclosed]
    · simp [hsummary, String.append_assoc]
  · simp [hj, Ne.symm hj]

theorem reasoning_end {signature : Option String} {native : Option NativeReasoning}
    (he : Effect c (outline parts) (.other (.reasoningEnd id signature native)) c')
    (hi : (outline (parts ++ [.other (.reasoningEnd id signature native)])).blocks[i]?
      = some .reasoning) :
    bodyAt c'.content i
      = (if i ∈ (outline (parts ++ [.other (.reasoningEnd id signature native)])).closed then
          earlySummary (parts ++ [.other (.reasoningEnd id signature native)]) i else "")
        ++ reasoningOf (parts ++ [.other (.reasoningEnd id signature native)]) i := by
  rw [outline_concat] at hi
  rw [he.bodies, h.bodyAt_reasoning (blocks_step hi)]
  simp only [reasoningOf, outline_concat, Outline.step, front, back]
  rw [h.mirrors.reasoningBlock, h.pending, String.append_empty]
  simp only [earlySummary, outline_concat, Outline.step]
  by_cases hopen : (outline parts).reasoning.map Prod.snd = some i
  · -- the open block has not been closed before
    have hnot : i ∉ (outline parts).closed := by
      obtain ⟨b, hb, rfl⟩ := Option.map_eq_some_iff.mp hopen
      exact ((wf_outline parts).reasoning b hb).2
    simp [hopen, hnot]
  · have hsame : i ∈ (outline parts).closed ++ ((outline parts).reasoning.map Prod.snd).toList
        ↔ i ∈ (outline parts).closed := by
      rw [List.mem_append, Option.mem_toList]
      exact ⟨fun h => h.resolve_right hopen, Or.inl⟩
    simp only [hopen, if_false, String.empty_append, hsame]

section

variable (he : Effect c (outline parts) part c')
  (hdeltas : ((outline parts).step part).deltas = (outline parts).deltas)
  (hclosed : ((outline parts).step part).closed = (outline parts).closed)

include he hdeltas hclosed

theorem reasoning_keep (hfront : front c part i = "")
    (hi : (outline (parts ++ [part])).blocks[i]? = some .reasoning)
    (hback : back (outline parts) part i = "") :
    bodyAt c'.content i
      = (if i ∈ (outline (parts ++ [part])).closed then earlySummary (parts ++ [part]) i else "")
        ++ reasoningOf (parts ++ [part]) i := by
  rw [outline_concat] at hi
  rw [he.bodies, hfront, hback, String.empty_append, String.append_empty,
    h.bodyAt_reasoning (blocks_step hi)]
  simp only [earlySummary, reasoningOf, outline_concat, hdeltas, hclosed]

theorem pending_keep
    (hpending : Gateway.pending c (outline parts) part i = summaryAt c.reasoningSummaries i) :
    summaryAt c'.reasoningSummaries i
      = if i ∈ (outline (parts ++ [part])).closed then lateSummary (parts ++ [part]) i
        else earlySummary (parts ++ [part]) i := by
  rw [he.pending, hpending, h.pending]
  simp only [earlySummary, lateSummary, outline_concat, hdeltas, hclosed]

end

theorem pending_delta {text : String} {sourceKind : Option ReasoningTextKind}
    (he : Effect c (outline parts) (.other (.reasoningDelta text sourceKind)) c') (i : ℕ) :
    summaryAt c'.reasoningSummaries i
      = if i ∈ (outline (parts ++ [.other (.reasoningDelta text sourceKind)])).closed then
          lateSummary (parts ++ [.other (.reasoningDelta text sourceKind)]) i
        else earlySummary (parts ++ [.other (.reasoningDelta text sourceKind)]) i := by
  rw [he.pending, lateSummary, earlySummary, outline_concat, Outline.step, lane_append,
    lane_append]
  dsimp only [Gateway.pending, Outline.laneOf]
  rw [h.pending, lateSummary, earlySummary]
  generalize address (outline parts).blocks .reasoning (outline parts).reasoning = j
  by_cases hj : i = j
  · subst hj
    by_cases hsummary : sourceKind = some .summary
    · by_cases hclosed : i ∈ (outline parts).closed <;> simp [hsummary, hclosed]
    · simp [hsummary]
  · simp [hj, Ne.symm hj]

theorem pending_end {signature : Option String} {native : Option NativeReasoning}
    (he : Effect c (outline parts) (.other (.reasoningEnd id signature native)) c') (i : ℕ) :
    summaryAt c'.reasoningSummaries i
      = if i ∈ (outline (parts ++ [.other (.reasoningEnd id signature native)])).closed then
          lateSummary (parts ++ [.other (.reasoningEnd id signature native)]) i
        else earlySummary (parts ++ [.other (.reasoningEnd id signature native)]) i := by
  rw [he.pending, lateSummary, earlySummary, outline_concat, Outline.step]
  dsimp only [Gateway.pending]
  rw [h.mirrors.reasoningBlock, h.pending]
  by_cases hopen : (outline parts).reasoning.map Prod.snd = some i
  · have hnot : i ∉ (outline parts).closed := by
      obtain ⟨b, hb, rfl⟩ := Option.map_eq_some_iff.mp hopen
      exact ((wf_outline parts).reasoning b hb).2
    simp [hopen, (wf_outline parts).late_nil hnot]
  · have hsame : i ∈ (outline parts).closed ++ ((outline parts).reasoning.map Prod.snd).toList
        ↔ i ∈ (outline parts).closed := by
      rw [List.mem_append, Option.mem_toList]
      exact ⟨fun h => h.resolve_right hopen, Or.inl⟩
    simp only [hopen, if_false, hsame, lateSummary, earlySummary]

end

theorem getLast?_concat_toList {α : Type} (xs : List α) (x : Option α) :
    (xs ++ x.toList).getLast? = x.or xs.getLast? := by
  cases x with
  | none => simp
  | some a => simp

/-- What does not depend on the part. -/
theorem step_of (h : Tracks c parts) (he : Effect c (outline parts) part c')
    (hreasoning : ∀ i, (outline (parts ++ [part])).blocks[i]? = some .reasoning →
      bodyAt c'.content i
        = (if i ∈ (outline (parts ++ [part])).closed then earlySummary (parts ++ [part]) i else "")
          ++ reasoningOf (parts ++ [part]) i)
    (hpending : ∀ i, summaryAt c'.reasoningSummaries i
      = if i ∈ (outline (parts ++ [part])).closed then lateSummary (parts ++ [part]) i
        else earlySummary (parts ++ [part]) i) : Tracks c' (parts ++ [part]) := by
  refine ⟨?_, ?_, hreasoning, hpending, fun i id hi => ?_, fun id => ?_, ?_, ?_⟩
  · rw [outline_concat]
    exact he.mirrors
  · rw [he.texts, h.texts, List.filterMap_append, String.join_append]
    cases hpart : textDelta part <;> simp [hpart]
  · rw [outline_concat] at hi
    exact h.calls_step he hi
  · rw [outline_concat, call_mem_step, h.called, callIds, callIds, List.filterMap_append,
      List.map_append, List.mem_append]
    cases hpart : callFragment part <;> simp [hpart, eq_comm]
  · rw [he.servers, h.servers, List.filterMap_append]
    cases hpart : serverPart part <;> simp [hpart]
  · rw [he.usage, h.usage, List.filterMap_append, ← getLast?_concat_toList]
    cases hpart : usageReport part <;> simp [hpart]

/-- **Every part keeps the invariant.** -/
theorem step (h : Tracks c parts) (happly : c.apply part = .ok c') :
    Tracks c' (parts ++ [part]) := by
  have he := effect h.mirrors (wf_outline parts) happly
  have hkeep (hdeltas : ((outline parts).step part).deltas = (outline parts).deltas)
      (hclosed : ((outline parts).step part).closed = (outline parts).closed)
      (hfront : ∀ i, front c part i = "")
      (hpending : ∀ i, Gateway.pending c (outline parts) part i
        = summaryAt c.reasoningSummaries i)
      (hback : ∀ i, (outline (parts ++ [part])).blocks[i]? = some .reasoning →
        back (outline parts) part i = "") : Tracks c' (parts ++ [part]) :=
    h.step_of he (fun i hi => h.reasoning_keep he hdeltas hclosed (hfront i) hi (hback i hi))
      (fun i => h.pending_keep he hdeltas hclosed (hpending i))
  cases part with
  | textDelta text =>
    refine hkeep rfl rfl (fun _ => rfl) (fun _ => rfl) (fun i hi => if_neg (fun heq => ?_))
    have hat := getElem?_place_address (fun b hb => ((wf_outline parts).text b hb).1)
    rw [outline_concat, Outline.step, heq] at hi
    simp [hat] at hi
  | toolCallDelta id name arguments metadata =>
    refine hkeep rfl rfl (fun _ => rfl) (fun _ => rfl) (fun i hi => if_neg (fun heq => ?_))
    rw [outline_concat, heq] at hi
    simp at hi
  | serverToolCall => exact hkeep rfl rfl (fun _ => rfl) (fun _ => rfl) (fun _ _ => rfl)
  | serverToolResult => exact hkeep rfl rfl (fun _ => rfl) (fun _ => rfl) (fun _ _ => rfl)
  | usage => exact hkeep rfl rfl (fun _ => rfl) (fun _ => rfl) (fun _ _ => rfl)
  | finish => exact hkeep rfl rfl (fun _ => rfl) (fun _ => rfl) (fun _ _ => rfl)
  | responseCompleted => exact hkeep rfl rfl (fun _ => rfl) (fun _ => rfl) (fun _ _ => rfl)
  | other part =>
    cases part with
    | reasoningDelta text sourceKind =>
      exact h.step_of he (fun i hi => h.reasoning_delta he hi) (fun i => h.pending_delta he i)
    | reasoningEnd id signature native =>
      exact h.step_of he (fun i hi => h.reasoning_end he hi) (fun i => h.pending_end he i)
    | textStart => exact hkeep rfl rfl (fun _ => rfl) (fun _ => rfl) (fun _ _ => rfl)
    | textEnd => exact hkeep rfl rfl (fun _ => rfl) (fun _ => rfl) (fun _ _ => rfl)
    | reasoningStart => exact hkeep rfl rfl (fun _ => rfl) (fun _ => rfl) (fun _ _ => rfl)
    | file => exact hkeep rfl rfl (fun _ => rfl) (fun _ => rfl) (fun _ _ => rfl)
    | source => exact hkeep rfl rfl (fun _ => rfl) (fun _ => rfl) (fun _ _ => rfl)
    | responseStarted => exact hkeep rfl rfl (fun _ => rfl) (fun _ => rfl) (fun _ _ => rfl)

end Tracks

/-! ## The end of the stream -/

section Finish

variable {content content' : List Content} {summaries : List (ℕ × String)}

theorem prependReasoningSummary_eq_ok {i : ℕ} {summary : String}
    (h : prependReasoningSummary content i summary = .ok content') :
    content'.map kind = content.map kind ∧ Reworked content content'
      ∧ ∀ j, bodyAt content' j = (if i = j then summary else "") ++ bodyAt content j := by
  unfold prependReasoningSummary at h
  split at h
  · rename_i text metadata native hat
    obtain rfl := Except.ok.inj h
    refine ⟨map_kind_set hat rfl, Reworked.set hat rfl rfl, fun j => ?_⟩
    rw [bodyAt_set hat]
    by_cases hj : j = i
    · subst hj
      rw [if_pos rfl, if_pos rfl, bodyAt_of_getElem? hat]
      rfl
    · rw [if_neg hj, if_neg (fun heq => hj heq.symm), String.empty_append]
  · simp at h

theorem summaryAt_cons (e : ℕ × String) (i : ℕ) :
    summaryAt (e :: summaries) i = if e.1 = i then e.2 else summaryAt summaries i := by
  unfold summaryAt
  rw [IndexMap.get]
  split <;> rfl

theorem summaryAt_of_notMem {i : ℕ} (h : i ∉ IndexMap.keys summaries) :
    summaryAt summaries i = "" := by
  rw [summaryAt, IndexMap.get_eq_none_iff.mpr h]
  rfl

/-- **The summaries that were kept go in front of their blocks.** -/
theorem spliceAll_eq_ok (hnodup : (IndexMap.keys summaries).Nodup)
    (h : Collector.spliceAll summaries content = .ok content') :
    content'.map kind = content.map kind ∧ Reworked content content'
      ∧ ∀ j, bodyAt content' j = summaryAt summaries j ++ bodyAt content j := by
  induction summaries generalizing content with
  | nil =>
    obtain rfl := pure_eq_ok.mp h
    exact ⟨rfl, Reworked.refl _, fun j => String.empty_append.symm⟩
  | cons e summaries ih =>
    rw [Collector.spliceAll, List.foldlM_cons, bind_eq_ok] at h
    obtain ⟨next, hnext, hrest⟩ := h
    have hkeys := List.nodup_cons.mp hnodup
    obtain ⟨hkinds, hreworked, hbodies⟩ := prependReasoningSummary_eq_ok hnext
    obtain ⟨hkinds', hreworked', hbodies'⟩ := ih hkeys.2 hrest
    refine ⟨hkinds'.trans hkinds, hreworked.trans hreworked', fun j => ?_⟩
    rw [hbodies', hbodies, summaryAt_cons]
    split
    · rename_i heq
      rw [← heq, summaryAt_of_notMem hkeys.1, String.empty_append]
    · rw [String.empty_append]

end Finish

/-- **What every part preserves holds of a successful collection.** -/
theorem run_of_collectGenerate {ε : Type} {embed : ModelError → ε} {parts : List StreamPart}
    {r : Collected} {P : Collector → List StreamPart → Prop} (hempty : P {} [])
    (hstep : ∀ pre part post c c', parts = pre ++ part :: post → P c pre →
      c.apply part = .ok c' → P c' (pre ++ [part]))
    (h : collectGenerate embed (parts.map .ok) = .ok r) :
    ∃ c, P c parts ∧ Collector.spliceAll c.reasoningSummaries c.content = .ok r.content
      ∧ r.usage = c.usage := by
  obtain ⟨c, hfold, hfinalize⟩ := bind_eq_ok.mp h
  have hrun : ∀ (rest done : List StreamPart) (c₀ : Collector), parts = done ++ rest →
      P c₀ done → (rest.map (.ok : StreamPart → Except ε StreamPart)).foldlM
        (fun c item => do
          let part ← item
          (c.observe part).mapError embed) c₀ = .ok c → P c (done ++ rest) := by
    intro rest
    induction rest with
    | nil =>
      intro done c₀ _ hc₀ hrun
      obtain rfl := pure_eq_ok.mp hrun
      rwa [List.append_nil]
    | cons part rest ih =>
      intro done c₀ hparts hc₀ hrun
      rw [List.map_cons, List.foldlM_cons, bind_eq_ok] at hrun
      obtain ⟨c₁, hobserve, hrest⟩ := hrun
      obtain ⟨_, -, happly⟩ := bind_eq_ok.mp (mapError_eq_ok.mp hobserve)
      have hnext := ih (done ++ [part]) c₁ (by rw [hparts, List.append_assoc]; rfl)
        (hstep done part rest c₀ c₁ hparts hc₀ happly) hrest
      rwa [List.append_assoc, List.singleton_append] at hnext
  obtain ⟨_, -, hfinalize⟩ := bind_eq_ok.mp (mapError_eq_ok.mp hfinalize)
  obtain ⟨content, hsplice, hr⟩ := bind_eq_ok.mp hfinalize
  obtain rfl := pure_eq_ok.mp hr
  exact ⟨c, hrun parts [] {} rfl hempty hfold, hsplice, rfl⟩

/-- **What a successful collection has observed.** -/
theorem tracks_of_collectGenerate {ε : Type} {embed : ModelError → ε} {parts : List StreamPart}
    {r : Collected} (h : collectGenerate embed (parts.map .ok) = .ok r) :
    ∃ c, Tracks c parts ∧ Collector.spliceAll c.reasoningSummaries c.content = .ok r.content
      ∧ r.usage = c.usage :=
  run_of_collectGenerate Tracks.empty (fun _ _ _ _ _ _ hc happly => hc.step happly) h

/-! ## Faithful results -/

/-- **A result is faithful to its stream.** -/
structure Faithful (parts : List StreamPart) (r : Collected) : Prop where
  /-- The text blocks hold the text deltas, in order. -/
  text : String.join (r.content.filterMap asText) = String.join (parts.filterMap textDelta)
  /-- A reasoning block holds the summary addressed to it, then the rest. -/
  reasoning : ∀ (i : ℕ) text metadata native,
    r.content[i]? = some (.other (.reasoning text metadata native)) →
    text = summaryOf parts i ++ reasoningOf parts i
  /-- Every reasoning delta is addressed to a reasoning block. -/
  addressed : ∀ d ∈ (outline parts).deltas, ∃ text metadata native,
    r.content[d.1]? = some (.other (.reasoning text metadata native))
  /-- Every id has one block, which holds its fragments. -/
  calls : ∀ id ∈ callIds parts, ∃ i : ℕ,
    (∃ name dynamic metadata,
      r.content[i]? = some (.toolCall id name (fragments parts id) false dynamic metadata))
    ∧ ∀ (j : ℕ) name arguments dynamic metadata,
      r.content[j]? = some (.toolCall id name arguments false dynamic metadata) → j = i
  /-- No other call is in the result, but those that are streamed whole. -/
  called : ∀ id name arguments dynamic metadata,
    .toolCall id name arguments false dynamic metadata ∈ r.content → id ∈ callIds parts
  servers : r.content.filterMap serverCall = parts.filterMap serverPart
  /-- The usage is the last one that was reported. -/
  usage : r.usage = (parts.filterMap usageReport).getLast?

theorem eq_reasoning {b : Content} (h : kind b = .reasoning) :
    ∃ text metadata native, b = .other (.reasoning text metadata native) := by
  match b, h with
  | .other (.reasoning text metadata native), _ => exact ⟨text, metadata, native, rfl⟩
  | .toolCall _ _ _ executed _ _, h => cases executed <;> simp [kind] at h

theorem eq_toolCall {b : Content} (h : kind b = .call id) :
    ∃ name dynamic metadata, b = .toolCall id name (body b) false dynamic metadata := by
  match b, h with
  | .toolCall id' name arguments false dynamic metadata, h =>
    obtain rfl : id' = id := by simpa [kind] using h
    exact ⟨name, dynamic, metadata, rfl⟩
  | .toolCall _ _ _ true _ _, h => simp [kind] at h

/-- **What a reasoning block of the result holds**: the summary that arrived
after its end, the summary that arrived before, and the rest. -/
theorem body_of_collectGenerate {c : Collector} {parts : List StreamPart}
    {content : List Content} (h : Tracks c parts)
    (hsplice : Collector.spliceAll c.reasoningSummaries c.content = .ok content) {i : ℕ}
    (hi : (outline parts).blocks[i]? = some .reasoning) :
    bodyAt content i = lateSummary parts i ++ earlySummary parts i ++ reasoningOf parts i := by
  rw [(spliceAll_eq_ok h.mirrors.nodup hsplice).2.2, h.pending, h.reasoning i hi]
  split
  · rw [String.append_assoc]
  · rename_i hopen
    have hlate : lateSummary parts i = "" := (wf_outline parts).late_nil hopen
    rw [hlate, String.empty_append, String.empty_append]

/-- **A collected stream is faithful exactly where every summary is in
order**: of a block whose summary continues after its end, the part after the
end and the part before it make the same text in either order. -/
theorem collectGenerate_faithful_iff {ε : Type} {embed : ModelError → ε} {parts : List StreamPart}
    {r : Collected} (h : collectGenerate embed (parts.map .ok) = .ok r) :
    Faithful parts r ↔ ∀ i, lateSummary parts i ++ earlySummary parts i
      = earlySummary parts i ++ lateSummary parts i := by
  obtain ⟨c, htracks, hsplice, husage⟩ := tracks_of_collectGenerate h
  obtain ⟨hkinds, hreworked, hbodies⟩ := spliceAll_eq_ok htracks.mirrors.nodup hsplice
  have hwf := wf_outline parts
  have hblocks : r.content.map kind = (outline parts).blocks := hkinds.trans htracks.mirrors.kinds
  have hat : ∀ {i : ℕ} {b}, r.content[i]? = some b →
      (outline parts).blocks[i]? = some (kind b) := by
    intro i b hb
    rw [← hblocks, getElem?_map_kind, hb]
    rfl
  have hblock : ∀ {i : ℕ} {k}, (outline parts).blocks[i]? = some k →
      ∃ b, r.content[i]? = some b ∧ kind b = k := by
    intro i k hk
    rw [← hblocks, getElem?_map_kind] at hk
    exact Option.map_eq_some_iff.mp hk
  have hsplit : ∀ i, summaryOf parts i = earlySummary parts i ++ lateSummary parts i := hwf.split
  constructor
  · intro hfaithful i
    by_cases hi : (outline parts).blocks[i]? = some .reasoning
    · obtain ⟨b, hb, hkind⟩ := hblock hi
      obtain ⟨text, metadata, native, rfl⟩ := eq_reasoning hkind
      have htext := hfaithful.reasoning i text metadata native hb
      have hbody := body_of_collectGenerate htracks hsplice hi
      rw [bodyAt_of_getElem? hb, body, htext, hsplit] at hbody
      exact ((String.append_left_inj _).mp hbody).symm
    · -- nothing is addressed to a block that is not one of reasoning
      have hempty : ∀ lanes, lane (outline parts).deltas i lanes = "" := fun lanes =>
        lane_eq_empty (fun d hd hdi => absurd (hdi ▸ hwf.placed d hd) hi)
      rw [lateSummary, earlySummary, hempty, hempty]
  · intro horder
    refine ⟨?_, fun i text metadata native hi => ?_, fun d hd => ?_, fun id hid => ?_,
      fun id name arguments dynamic metadata hmem => ?_, ?_, husage.trans htracks.usage⟩
    · exact hreworked.texts.trans htracks.texts
    · have hbody := body_of_collectGenerate htracks hsplice (hat hi)
      rw [bodyAt_of_getElem? hi, body, horder] at hbody
      rw [hbody, hsplit]
    · obtain ⟨b, hb, hkind⟩ := hblock (hwf.placed d hd)
      obtain ⟨text, metadata, native, rfl⟩ := eq_reasoning hkind
      exact ⟨text, metadata, native, hb⟩
    · obtain ⟨i, hi⟩ := (htracks.mirrors.indexed.mem id).mp ((htracks.called id).mpr hid)
      have hcall := (htracks.mirrors.indexed id i).mp hi
      obtain ⟨b, hb, hkind⟩ := hblock hcall
      obtain ⟨name, dynamic, metadata, hb'⟩ := eq_toolCall hkind
      refine ⟨i, ⟨name, dynamic, metadata, ?_⟩, fun j name' arguments dynamic' metadata' hj => ?_⟩
      · have hsummary : summaryAt c.reasoningSummaries i = "" := by
          refine summaryAt_of_notMem (fun hkey => ?_)
          obtain ⟨e, he, rfl⟩ := List.mem_map.mp hkey
          rw [htracks.mirrors.summaries e he] at hcall
          simp at hcall
        have hbody := hbodies i
        rw [bodyAt_of_getElem? hb, hsummary, String.empty_append, htracks.calls i id hcall] at hbody
        rw [hb, hb', hbody]
      · have hj := (htracks.mirrors.indexed id j).mpr (hat hj)
        exact Option.some.inj (hj.symm.trans hi)
    · obtain ⟨i, hi⟩ := List.mem_iff_getElem?.mp hmem
      exact (htracks.called id).mp (List.mem_of_getElem? (hat hi))
    · exact hreworked.servers.trans htracks.servers

/-- A summary that ends with its block. -/
def summarized : List StreamPart :=
  [.other (.reasoningStart "r" none), .other (.reasoningDelta "why" (some .text)),
    .other (.reasoningDelta "gist: " (some .summary)), .other (.reasoningEnd "r" none none),
    .textDelta "hello", .finish .stop]

theorem collectGenerate_faithful_summarized :
    ∃ r, collectGenerate (fun e : ModelError => e) (summarized.map .ok) = .ok r
      ∧ Faithful summarized r := by
  have hrun : collectGenerate (fun e : ModelError => e) (summarized.map .ok)
      = .ok ⟨[.other (.reasoning "gist: why" [] none), .text "hello" []], none, some .stop, none⟩ :=
    rfl
  refine ⟨_, hrun, (collectGenerate_faithful_iff hrun).mpr (fun i => ?_)⟩
  have hlate : lateSummary summarized i = "" :=
    lane_eq_empty (fun d hd _ => (by decide : ∀ d ∈ (outline summarized).deltas,
      d.2.1 ∉ [Lane.late]) d hd)
  rw [hlate, String.empty_append, String.append_empty]

/-- A summary that continues after the end of its block. -/
def continued : List StreamPart :=
  [.other (.reasoningStart "r" none), .other (.reasoningDelta "A" (some .summary)),
    .other (.reasoningEnd "r" none none), .other (.reasoningDelta "B" (some .summary)),
    .finish .stop]

/-- **A continued summary is put together in the wrong order.** -/
theorem continued_not_faithful :
    ∃ r, collectGenerate (fun e : ModelError => e) (continued.map .ok) = .ok r
      ∧ r.content = [.other (.reasoning "BA" [] none)] ∧ ¬ Faithful continued r := by
  refine ⟨_, rfl, rfl, fun h => ?_⟩
  exact absurd (h.reasoning 0 "BA" [] none rfl) (by decide +kernel)

end BitRouter.Gateway
