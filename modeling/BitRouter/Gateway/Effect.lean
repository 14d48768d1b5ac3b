import BitRouter.Gateway.Outline

/-!
# What a part does to the collected content

One lemma for each part of a stream (`effect`): it appends its text to the
addressed block, puts a summary in front of the closed one, or adds a block,
and the collector stays in step with the outline (`Mirrors`). What the
collected content amounts to is proved from it alone.
-/

namespace BitRouter.Gateway

open Ai

/-! ## Projections -/

def asText : Content → Option String
  | .text text _ => some text
  | _ => none

/-- A call that was executed by the router or the provider. -/
def serverCall : Content → Option (String × String × String)
  | .toolCall id name arguments true _ _ => some (id, name, arguments)
  | _ => none

/-- The text of all text blocks. -/
def textContent (content : List Content) : String := String.join (content.filterMap asText)

def textDelta : StreamPart → Option String
  | .textDelta text => some text
  | _ => none

def callFragment : StreamPart → Option (String × String)
  | .toolCallDelta id _ arguments _ => some (id, arguments)
  | _ => none

/-- A call that is streamed whole. -/
def serverPart : StreamPart → Option (String × String × String)
  | .serverToolCall id name arguments _ _ => some (id, name, arguments)
  | _ => none

def usageReport : StreamPart → Option Usage
  | .usage usage => some usage
  | .responseCompleted _ usage => usage
  | _ => none

/-- The summary kept for a block. -/
def summaryAt (summaries : List (ℕ × String)) (i : ℕ) : String :=
  (IndexMap.get summaries i).getD ""

/-! ## Effects -/

/-- **The collector in step with the outline.** -/
structure Mirrors (c : Collector) (o : Outline) : Prop where
  kinds : c.content.map kind = o.blocks
  textBlock : c.textBlock = o.text
  reasoningBlock : c.reasoningBlock = o.reasoning
  indexed : Indexed o.blocks c.toolIndices
  summaries : ∀ e ∈ c.reasoningSummaries, o.blocks[e.1]? = some .reasoning
  nodup : (IndexMap.keys c.reasoningSummaries).Nodup

/-- The text a part puts in front of a block. -/
def front (c : Collector) (part : StreamPart) (i : ℕ) : String :=
  match part with
  | .other (.reasoningEnd _ _ _) =>
    if c.reasoningBlock.map Prod.snd = some i then summaryAt c.reasoningSummaries i else ""
  | _ => ""

/-- The text a part appends to a block. -/
def back (o : Outline) (part : StreamPart) (i : ℕ) : String :=
  match part with
  | .textDelta text => if i = address o.blocks .text o.text then text else ""
  | .other (.reasoningDelta text sourceKind) =>
    if i = address o.blocks .reasoning o.reasoning ∧ sourceKind ≠ some .summary then text else ""
  | .toolCallDelta id _ arguments _ =>
    if (o.step part).blocks[i]? = some (.call id) then arguments else ""
  | _ => ""

/-- The summary kept for a block after a part. -/
def pending (c : Collector) (o : Outline) (part : StreamPart) (i : ℕ) : String :=
  match part with
  | .other (.reasoningDelta text sourceKind) =>
    summaryAt c.reasoningSummaries i
      ++ if i = address o.blocks .reasoning o.reasoning ∧ sourceKind = some .summary then text
        else ""
  | .other (.reasoningEnd _ _ _) =>
    if c.reasoningBlock.map Prod.snd = some i then "" else summaryAt c.reasoningSummaries i
  | _ => summaryAt c.reasoningSummaries i

/-- **What a part does.** -/
structure Effect (c : Collector) (o : Outline) (part : StreamPart) (c' : Collector) : Prop where
  mirrors : Mirrors c' (o.step part)
  bodies : ∀ i, bodyAt c'.content i = front c part i ++ bodyAt c.content i ++ back o part i
  pending : ∀ i, summaryAt c'.reasoningSummaries i = pending c o part i
  texts : textContent c'.content = textContent c.content ++ (textDelta part).getD ""
  servers : c'.content.filterMap serverCall
    = c.content.filterMap serverCall ++ (serverPart part).toList
  usage : c'.usage = (usageReport part).or c.usage

section Effects

variable {c c' : Collector} {o : Outline}

theorem Mirrors.length (h : Mirrors c o) : c.content.length = o.blocks.length := by
  rw [← h.kinds, List.length_map]

/-- A part that leaves the content alone. -/
theorem Mirrors.still (h : Mirrors c o) {part : StreamPart}
    (hcontent : c'.content = c.content) (hindices : c'.toolIndices = c.toolIndices)
    (hsummaries : c'.reasoningSummaries = c.reasoningSummaries)
    (hblocks : (o.step part).blocks = o.blocks) (htext : c'.textBlock = (o.step part).text)
    (hreasoning : c'.reasoningBlock = (o.step part).reasoning)
    (hfront : ∀ i, front c part i = "") (hback : ∀ i, back o part i = "")
    (hpending : ∀ i, Gateway.pending c o part i = summaryAt c.reasoningSummaries i)
    (hdelta : textDelta part = none) (hserver : serverPart part = none)
    (husage : c'.usage = (usageReport part).or c.usage) : Effect c o part c' := by
  refine ⟨⟨?_, htext, hreasoning, ?_, ?_, ?_⟩, fun i => ?_, fun i => ?_, ?_, ?_, husage⟩
  · rw [hcontent, hblocks, h.kinds]
  · rw [hblocks, hindices]
    exact h.indexed
  · rw [hblocks, hsummaries]
    exact h.summaries
  · rw [hsummaries]
    exact h.nodup
  · rw [hfront, hback, hcontent, String.empty_append, String.append_empty]
  · rw [hpending, hsummaries]
  · rw [hcontent, hdelta, Option.getD_none, String.append_empty]
  · rw [hcontent, hserver, Option.toList_none, List.append_nil]

/-- A part that adds an empty block. -/
theorem Mirrors.push (h : Mirrors c o) {part : StreamPart} {b : Content}
    (hcontent : c'.content = c.content ++ [b]) (hindices : c'.toolIndices = c.toolIndices)
    (hsummaries : c'.reasoningSummaries = c.reasoningSummaries)
    (hblocks : (o.step part).blocks = o.blocks ++ [kind b]) (hcall : ∀ id, kind b ≠ .call id)
    (hbody : body b = "") (htext : c'.textBlock = (o.step part).text)
    (hreasoning : c'.reasoningBlock = (o.step part).reasoning) (hfront : ∀ i, front c part i = "")
    (hback : ∀ i, back o part i = "")
    (hpending : ∀ i, Gateway.pending c o part i = summaryAt c.reasoningSummaries i)
    (hdelta : textDelta part = none) (hempty : (asText b).getD "" = "")
    (hserver : serverCall b = serverPart part) (husage : c'.usage = (usageReport part).or c.usage) :
    Effect c o part c' := by
  refine ⟨⟨?_, htext, hreasoning, ?_, fun e he => ?_, ?_⟩, fun i => ?_, fun i => ?_, ?_, ?_,
    husage⟩
  · rw [hcontent, hblocks, List.map_append, List.map_singleton, h.kinds]
  · rw [hblocks, hindices]
    exact h.indexed.push hcall
  · rw [hsummaries] at he
    rw [hblocks]
    exact getElem?_push.mpr (Or.inl (h.summaries e he))
  · rw [hsummaries]
    exact h.nodup
  · rw [hfront, hback, hcontent, bodyAt_push, hbody, String.empty_append, String.append_empty]
    split
    · rename_i heq
      rw [bodyAt, List.getElem?_eq_none (Nat.le_of_eq heq.symm)]
      rfl
    · rfl
  · rw [hpending, hsummaries]
  · rw [hcontent, hdelta, Option.getD_none, String.append_empty, textContent, List.filterMap_append,
      String.join_append, textContent]
    cases hb : asText b with
    | none => simp [hb]
    | some t =>
      obtain rfl : t = "" := by simpa [hb] using hempty
      simp [hb]
  · rw [hcontent, List.filterMap_append, ← hserver]
    cases hb : serverCall b <;> simp [hb]

end Effects

/-! ## Text -/

variable {metadata : ProviderMetadata} {text : String}

section Text

variable {c c' : Collector} {o : Outline}

/-- Appending to the last text block appends to all text. -/
theorem textContent_set {content : List Content} {i : ℕ} {current : String}
    (h : content[i]? = some (.text current metadata))
    (hlast : ∀ j, i < j → (content.map kind)[j]? ≠ some .text) :
    textContent (content.set i (.text (current ++ text) metadata))
        = textContent content ++ text := by
  unfold textContent
  induction content generalizing i with
  | nil => simp at h
  | cons b content ih =>
    cases i with
    | zero =>
      obtain rfl : b = .text current metadata := by simpa using h
      have hrest : content.filterMap asText = [] := by
        refine List.filterMap_eq_nil_iff.mpr (fun b hb => ?_)
        obtain ⟨j, hj⟩ := List.mem_iff_getElem?.mp hb
        have hne := hlast (j + 1) (Nat.succ_pos j)
        rw [List.map_cons, List.getElem?_cons_succ, getElem?_map_kind, hj] at hne
        cases b <;> simp [kind, asText] at hne ⊢
      simp [asText, hrest]
    | succ i =>
      have ih := ih h (fun j hj => by
        have := hlast (j + 1) (Nat.succ_lt_succ hj)
        rwa [List.map_cons, List.getElem?_cons_succ] at this)
      rw [List.set_cons_succ, List.filterMap_cons, List.filterMap_cons]
      cases asText b with
      | none => exact ih
      | some t => rw [String.join_cons, String.join_cons, ih, String.append_assoc]

theorem last_text {content : List Content} {block : Option (String × ℕ)}
    (hopen : OpenText (content.map kind) block) {i : ℕ}
    (hi : i = address (content.map kind) .text block) (hlt : i < content.length) :
    ∀ j, i < j → (content.map kind)[j]? ≠ some .text := by
  cases block with
  | some b =>
    subst hi
    exact (hopen b rfl).2
  | none =>
    intro j hj hfalse
    have hjlt := lt_length_of_getElem? hfalse
    rw [List.length_map] at hjlt
    unfold address at hi
    dsimp only at hi
    rw [List.length_map] at hi
    split at hi
    · omega
    · omega

theorem effect_textDelta (hm : Mirrors c o) (hw : o.Wf) (h : c.apply (.textDelta text) = .ok c') :
    Effect c o (.textDelta text) c' := by
  obtain ⟨⟨i, content⟩, happend, h⟩ := bind_eq_ok.mp h
  obtain rfl := pure_eq_ok.mp h
  obtain ⟨hi, hcases⟩ := appendText_cases happend
  obtain ⟨hkinds, -⟩ := kinds_appendText happend
  have hkind : kindOf false = .text := rfl
  rw [hkind] at hi hkinds
  rw [hm.kinds] at hi hkinds
  rw [hm.textBlock] at hi
  have hblocks : (o.step (.textDelta text)).blocks = place o.blocks .text i := by
    rw [hi]
    rfl
  refine ⟨⟨hkinds.trans hblocks.symm, hm.textBlock, hm.reasoningBlock, ?_, fun e he => ?_,
    hm.nodup⟩, fun j => ?_, fun j => rfl, ?_, ?_, rfl⟩
  · rw [hblocks]
    unfold place
    split
    · exact hm.indexed
    · exact hm.indexed.push (by simp)
  · rw [hblocks]
    exact getElem?_place_of_some (hm.summaries e he) i
  · rw [bodyAt_appendText happend, hi]
    simp only [front, back, String.empty_append]
    split <;> simp
  · simp only [textDelta, Option.getD_some]
    rcases hcases with ⟨b, b', hat, hext, rfl⟩ | ⟨-, rfl, rfl⟩
    · have hlt := (List.getElem?_eq_some_iff.mp hat).1
      have hopen : OpenText (c.content.map kind) o.text := by
        rw [hm.kinds]
        exact hw.text
      have hlast := last_text hopen (by rw [hm.kinds]; exact hi) hlt
      match b, hat, hext with
      | .text current metadata, hat, hext =>
        obtain rfl : _ = b' := by simpa [extendBlock] using hext
        exact textContent_set hat hlast
      | .other (.reasoning _ _ _), _, hext => simp [extendBlock] at hext
    · rw [textContent, List.filterMap_append, String.join_append]
      simp [freshBlock, asText, textContent]
  · refine Eq.trans ?_ (List.append_nil _).symm
    rcases hcases with ⟨b, b', hat, hext, rfl⟩ | ⟨-, rfl, rfl⟩
    · refine filterMap_set serverCall hat ?_
      match b, hext with
      | .text current metadata, hext =>
        obtain rfl : _ = b' := by simpa [extendBlock] using hext
        rfl
      | .other (.reasoning _ _ _), hext => simp [extendBlock] at hext
    · simp [freshBlock, serverCall]

end Text

/-! ## Reasoning -/

/-- A change to reasoning blocks only. -/
structure Reworked (content content' : List Content) : Prop where
  texts : textContent content' = textContent content
  servers : content'.filterMap serverCall = content.filterMap serverCall

namespace Reworked

variable {content content' content'' : List Content} {b b' : Content} {i : ℕ}

theorem refl (content : List Content) : Reworked content content := ⟨rfl, rfl⟩

theorem trans (h : Reworked content content') (h' : Reworked content' content'') :
    Reworked content content'' :=
  ⟨h'.texts.trans h.texts, h'.servers.trans h.servers⟩

theorem of_kind (h : kind b = .reasoning) : asText b = none ∧ serverCall b = none := by
  match b, h with
  | .other (.reasoning _ _ _), _ => exact ⟨rfl, rfl⟩
  | .toolCall _ _ _ executed _ _, h => cases executed <;> simp [kind] at h

theorem set (h : content[i]? = some b) (hb : kind b = .reasoning) (hb' : kind b' = .reasoning) :
    Reworked content (content.set i b') := by
  obtain ⟨htext, hserver⟩ := of_kind hb
  obtain ⟨htext', hserver'⟩ := of_kind hb'
  refine ⟨?_, filterMap_set _ h (hserver'.trans hserver.symm)⟩
  rw [textContent, filterMap_set _ h (htext'.trans htext.symm), textContent]

theorem push (hb : kind b = .reasoning) : Reworked content (content ++ [b]) := by
  obtain ⟨htext, hserver⟩ := of_kind hb
  constructor
  · simp [textContent, htext]
  · simp [hserver]

theorem appendText {block : Option (String × ℕ)} {text : String}
    (h : Gateway.appendText content (block.map Prod.snd) text true = .ok (i, content')) :
    Reworked content content' := by
  obtain ⟨-, ⟨b, b', hat, hext, rfl⟩ | ⟨-, -, rfl⟩⟩ := appendText_cases h
  · obtain ⟨hb, hb', -⟩ := extendBlock_eq_some hext
    exact set hat hb hb'
  · exact push (kind_freshBlock text true)

end Reworked

variable {id : String} {index : Option ℕ}

section Reasoning

variable {c c' : Collector} {o : Outline}

theorem summaryAt_insert (summaries : List (ℕ × String)) (i j : ℕ) (s : String) :
    summaryAt (IndexMap.insert summaries i s) j = if i = j then s else summaryAt summaries j := by
  unfold summaryAt
  rw [IndexMap.get_insert]
  split <;> simp_all

theorem effect_reasoningDelta (hm : Mirrors c o) {sourceKind : Option ReasoningTextKind}
    (h : c.apply (.other (.reasoningDelta text sourceKind)) = .ok c') :
    Effect c o (.other (.reasoningDelta text sourceKind)) c' := by
  obtain ⟨⟨i, content⟩, happend, h⟩ := bind_eq_ok.mp h
  dsimp only at happend h
  have hi := (appendText_cases happend).1
  obtain ⟨hkinds, hat⟩ := kinds_appendText happend
  have hbodies := bodyAt_appendText happend
  have hreworked := Reworked.appendText happend
  have hkind : kindOf true = .reasoning := rfl
  rw [hkind] at hi hkinds hat
  rw [hm.kinds] at hi hkinds
  rw [hm.reasoningBlock] at hi
  have hblocks : (o.step (.other (.reasoningDelta text sourceKind))).blocks
      = place o.blocks .reasoning i := by
    rw [hi]
    rfl
  have hindexed : Indexed (place o.blocks .reasoning i) c.toolIndices := by
    unfold place
    split
    · exact hm.indexed
    · exact hm.indexed.push (by simp)
  have hold : ∀ e ∈ c.reasoningSummaries, (place o.blocks .reasoning i)[e.1]? = some .reasoning :=
    fun e he => getElem?_place_of_some (hm.summaries e he) i
  rw [hkinds] at hat
  split at h
  · rename_i hsummary
    obtain rfl := pure_eq_ok.mp h
    refine ⟨⟨hkinds.trans hblocks.symm, hm.textBlock, hm.reasoningBlock, ?_, fun e he => ?_,
      IndexMap.nodup_keys_insert hm.nodup _ _⟩, fun j => ?_, fun j => ?_, ?_, ?_, rfl⟩
    · rw [hblocks]
      exact hindexed
    · rw [hblocks]
      rcases IndexMap.mem_insert he with rfl | he
      · exact hat
      · exact hold e he
    · rw [hbodies]
      simp [front, back, hsummary]
    · rw [summaryAt_insert]
      simp only [Gateway.pending, hsummary, and_true, ← hi]
      split
      · rename_i heq
        rw [if_pos heq.symm, heq]
        rfl
      · rename_i hne
        rw [if_neg (fun heq => hne heq.symm), String.append_empty]
    · rw [hreworked.texts]
      simp [textDelta]
    · rw [hreworked.servers]
      simp [serverPart]
  · rename_i hsummary
    obtain ⟨⟨i', content'⟩, happend', h⟩ := bind_eq_ok.mp h
    obtain rfl := pure_eq_ok.mp h
    have hopen : (some i : Option ℕ) = (some ("", i) : Option (String × ℕ)).map Prod.snd := rfl
    rw [hopen] at happend'
    obtain rfl : i' = i := (appendText_cases happend').1
    have hkinds' := (kinds_appendText happend').1
    have hsame : content'.map kind = content.map kind := by
      rw [hkinds', place, if_pos]
      rw [hkinds]
      exact lt_length_of_getElem? hat
    have hreworked' := hreworked.trans (Reworked.appendText happend')
    refine ⟨⟨?_, hm.textBlock, hm.reasoningBlock, ?_, fun e he => ?_, hm.nodup⟩, fun j => ?_,
      fun j => ?_, ?_, ?_, rfl⟩
    · exact hsame.trans (hkinds.trans hblocks.symm)
    · rw [hblocks]
      exact hindexed
    · rw [hblocks]
      exact hold e he
    · rw [bodyAt_appendText happend', hbodies]
      simp only [front, back, String.empty_append, ne_eq, hsummary, not_false_eq_true, and_true,
        ← hi]
      split <;> simp
    · simp [Gateway.pending, hsummary]
    · rw [hreworked'.texts]
      simp [textDelta]
    · rw [hreworked'.servers]
      simp [serverPart]

/-- A step that leaves everything but the inside of reasoning blocks. -/
structure Retouched (c c' : Collector) : Prop where
  rest : c' = { c with content := c'.content, reasoningSummaries := c'.reasoningSummaries }
  kinds : c'.content.map kind = c.content.map kind
  reworked : Reworked c.content c'.content

namespace Retouched

variable {c'' : Collector}

theorem refl (c : Collector) : Retouched c c := ⟨rfl, rfl, Reworked.refl _⟩

theorem trans (h : Retouched c c') (h' : Retouched c' c'') : Retouched c c'' := by
  refine ⟨?_, h'.kinds.trans h.kinds, h.reworked.trans h'.reworked⟩
  rw [h'.rest, h.rest]

theorem set {i : ℕ} {text : String} {metadata : ProviderMetadata} {native : Option NativeReasoning}
    (h : c.content[i]? = some (.other (.reasoning text metadata native))) (text' : String)
    (metadata' : ProviderMetadata) (native' : Option NativeReasoning)
    (summaries : List (ℕ × String)) :
    Retouched c { c with
      content := c.content.set i (.other (.reasoning text' metadata' native'))
      reasoningSummaries := summaries } :=
  ⟨rfl, map_kind_set h rfl, Reworked.set h rfl rfl⟩

end Retouched

theorem closeBlock_eq_ok {block : Option (String × ℕ)} (h : closeBlock block id = .ok index) :
    index = block.map Prod.snd := by
  unfold closeBlock at h
  split at h
  · split at h
    · exact (Except.ok.inj h).symm
    · simp at h
  · exact (Except.ok.inj h).symm

/-- The summary of a closed block goes in front of it. -/
theorem spliceSummary_eq_ok (h : c.spliceSummary index = .ok c') :
    Retouched c c'
      ∧ (∀ j, bodyAt c'.content j
        = (if index = some j then summaryAt c.reasoningSummaries j else "") ++ bodyAt c.content j)
      ∧ (∀ j, summaryAt c'.reasoningSummaries j
        = if index = some j then "" else summaryAt c.reasoningSummaries j)
      ∧ (c'.reasoningSummaries = c.reasoningSummaries
        ∨ ∃ i, c'.reasoningSummaries = IndexMap.erase c.reasoningSummaries i) := by
  unfold Collector.spliceSummary at h
  split at h
  · obtain rfl := Except.ok.inj h
    exact ⟨Retouched.refl _, by simp, by simp, Or.inl rfl⟩
  · rename_i i
    split at h
    · rename_i hnone
      obtain rfl := Except.ok.inj h
      have hempty : summaryAt c.reasoningSummaries i = "" := by
        rw [summaryAt, hnone]
        rfl
      refine ⟨Retouched.refl _, fun j => ?_, fun j => ?_, Or.inl rfl⟩
      · split
        · rename_i heq
          obtain rfl := Option.some.inj heq
          rw [hempty, String.empty_append]
        · rw [String.empty_append]
      · split
        · rename_i heq
          obtain rfl := Option.some.inj heq
          exact hempty
        · rfl
    · rename_i summary hsummary
      obtain ⟨content, hprepend, h⟩ := bind_eq_ok.mp h
      obtain rfl := pure_eq_ok.mp h
      unfold prependReasoningSummary at hprepend
      split at hprepend
      · rename_i text metadata native hat
        obtain rfl := Except.ok.inj hprepend
        have hfound : summaryAt c.reasoningSummaries i = summary := by
          rw [summaryAt, hsummary]
          rfl
        refine ⟨Retouched.set hat _ _ _ _, fun j => ?_, fun j => ?_, Or.inr ⟨i, rfl⟩⟩
        · rw [bodyAt_set hat]
          by_cases hj : j = i
          · subst hj
            rw [if_pos rfl, if_pos rfl, hfound, bodyAt_of_getElem? hat]
            rfl
          · rw [if_neg hj, if_neg (fun heq => hj (Option.some.inj heq).symm), String.empty_append]
        · dsimp only [summaryAt]
          rw [IndexMap.get_erase]
          by_cases hj : j = i
          · subst hj
            rw [if_pos rfl, if_pos rfl]
            rfl
          · rw [if_neg hj, if_neg (fun heq => hj (Option.some.inj heq).symm)]
      · simp at hprepend

theorem saveNative_eq_ok {native : Option NativeReasoning}
    (h : c.saveNative index native = .ok c') :
    Retouched c c' ∧ (∀ j, bodyAt c'.content j = bodyAt c.content j)
      ∧ c'.reasoningSummaries = c.reasoningSummaries := by
  unfold Collector.saveNative at h
  split at h
  · obtain rfl := Except.ok.inj h
    exact ⟨Retouched.refl _, fun _ => rfl, rfl⟩
  · split at h
    · simp at h
    · split at h
      · rename_i i _ text metadata saved hat
        split at h
        · simp at h
        · obtain rfl := Except.ok.inj h
          refine ⟨Retouched.set hat _ _ _ _, fun j => ?_, rfl⟩
          rw [bodyAt_set hat]
          split
          · rename_i heq
            rw [heq, bodyAt_of_getElem? hat]
            rfl
          · rfl
      · simp at h

theorem saveSignature_eq_ok {signature : Option String}
    (h : c.saveSignature index signature = .ok c') :
    Retouched c c' ∧ (∀ j, bodyAt c'.content j = bodyAt c.content j)
      ∧ c'.reasoningSummaries = c.reasoningSummaries := by
  unfold Collector.saveSignature at h
  split at h
  · obtain rfl := Except.ok.inj h
    exact ⟨Retouched.refl _, fun _ => rfl, rfl⟩
  · split at h
    · simp at h
    · split at h
      · rename_i i _ text metadata saved hat
        obtain rfl := Except.ok.inj h
        refine ⟨Retouched.set hat _ _ _ _, fun j => ?_, rfl⟩
        rw [bodyAt_set hat]
        split
        · rename_i heq
          rw [heq, bodyAt_of_getElem? hat]
          rfl
        · rfl
      · simp at h

theorem effect_reasoningEnd (hm : Mirrors c o) {signature : Option String}
    {native : Option NativeReasoning}
    (h : c.apply (.other (.reasoningEnd id signature native)) = .ok c') :
    Effect c o (.other (.reasoningEnd id signature native)) c' := by
  obtain ⟨index, hclose, h⟩ := bind_eq_ok.mp h
  obtain ⟨c₁, hsplice, h⟩ := bind_eq_ok.mp h
  obtain ⟨c₂, hnative, hsignature⟩ := bind_eq_ok.mp h
  obtain rfl := closeBlock_eq_ok hclose
  obtain ⟨hsame₁, hbodies₁, hsummary₁, hkeys⟩ := spliceSummary_eq_ok hsplice
  obtain ⟨hsame₂, hbodies₂, hsummaries₂⟩ := saveNative_eq_ok hnative
  obtain ⟨hsame₃, hbodies₃, hsummaries₃⟩ := saveSignature_eq_ok hsignature
  have hsame := (hsame₁.trans hsame₂).trans hsame₃
  have hsummaries : c'.reasoningSummaries = c₁.reasoningSummaries :=
    hsummaries₃.trans hsummaries₂
  have hsub : ∀ e ∈ c'.reasoningSummaries, e ∈ c.reasoningSummaries := by
    rw [hsummaries]
    rcases hkeys with hkeys | ⟨i, hkeys⟩
    · rw [hkeys]
      exact fun e he => he
    · rw [hkeys]
      exact fun e he => (List.mem_filter.mp he).1
  have hnodup : (IndexMap.keys c'.reasoningSummaries).Nodup := by
    rw [hsummaries]
    rcases hkeys with hkeys | ⟨i, hkeys⟩
    · rw [hkeys]
      exact hm.nodup
    · rw [hkeys]
      exact IndexMap.nodup_keys_erase hm.nodup i
  refine ⟨⟨hsame.kinds.trans hm.kinds, ?_, ?_, ?_, fun e he => hm.summaries e (hsub e he), hnodup⟩,
    fun j => ?_, fun j => ?_, ?_, ?_, ?_⟩
  · rw [hsame.rest]
    exact hm.textBlock
  · rw [hsame.rest]
    rfl
  · rw [hsame.rest]
    exact hm.indexed
  · rw [hbodies₃, hbodies₂, hbodies₁]
    simp only [front, back, String.append_empty]
  · rw [hsummaries, hsummary₁]
    rfl
  · rw [hsame.reworked.texts]
    simp [textDelta]
  · rw [hsame.reworked.servers]
    simp [serverPart]
  · rw [hsame.rest]
    rfl

end Reasoning

/-! ## Tool calls -/

section Calls

variable {c c' : Collector} {o : Outline}

theorem extendCall_eq_ok {i : ℕ} {name : Option String} {arguments : String}
    (hi : c.content[i]?.map kind = some (.call id))
    (h : c.extendCall i name arguments metadata = .ok c') :
    c' = { c with content := c'.content } ∧ c'.content.map kind = c.content.map kind
      ∧ (∀ j, bodyAt c'.content j = bodyAt c.content j ++ if i = j then arguments else "")
      ∧ textContent c'.content = textContent c.content
      ∧ c'.content.filterMap serverCall = c.content.filterMap serverCall := by
  unfold Collector.extendCall at h
  split at h
  · rename_i id' currentName currentArguments executed dynamic currentMetadata hat
    obtain ⟨_, -, h⟩ := bind_eq_ok.mp h
    obtain ⟨merged, -, h⟩ := bind_eq_ok.mp h
    obtain rfl := pure_eq_ok.mp h
    have hexecuted : executed = false := by
      rw [hat] at hi
      cases executed
      · rfl
      · simp [kind] at hi
    subst hexecuted
    refine ⟨rfl, map_kind_set hat rfl, fun j => ?_, ?_, filterMap_set _ hat rfl⟩
    · dsimp only
      rw [bodyAt_set hat]
      by_cases hj : j = i
      · subst hj
        rw [if_pos rfl, if_pos rfl, bodyAt_of_getElem? hat]
        rfl
      · rw [if_neg hj, if_neg (fun heq => hj heq.symm), String.append_empty]
    · exact congrArg String.join (filterMap_set _ hat rfl)
  · simp at h

theorem effect_toolCallDelta (hm : Mirrors c o) {name : Option String} {arguments : String}
    (h : c.apply (.toolCallDelta id name arguments metadata) = .ok c') :
    Effect c o (.toolCallDelta id name arguments metadata) c' := by
  rw [Collector.apply, Collector.toolCallDelta, Collector.openCall] at h
  cases hget : IndexMap.get c.toolIndices id with
  | some i =>
    rw [hget] at h
    have hat := (hm.indexed id i).mp hget
    have hblocks : (o.step (.toolCallDelta id name arguments metadata)).blocks = o.blocks := by
      exact if_pos ((hm.indexed.mem id).mpr ⟨i, hget⟩)
    have hcall : c.content[i]?.map kind = some (.call id) := by
      rw [← getElem?_map_kind, hm.kinds]
      exact hat
    obtain ⟨hrest, hkinds, hbodies, htexts, hservers⟩ := extendCall_eq_ok hcall h
    refine ⟨⟨hkinds.trans (hm.kinds.trans hblocks.symm), ?_, ?_, ?_, fun e he => ?_, ?_⟩,
      fun j => ?_, fun j => ?_, ?_, ?_, ?_⟩
    · rw [hrest]
      exact hm.textBlock
    · rw [hrest]
      exact hm.reasoningBlock
    · rw [hrest, hblocks]
      exact hm.indexed
    · rw [hrest] at he
      rw [hblocks]
      exact hm.summaries e he
    · rw [hrest]
      exact hm.nodup
    · have hback : back o (.toolCallDelta id name arguments metadata) j
          = if i = j then arguments else "" := by
        simp only [back, hblocks, ← hm.indexed id j, hget, Option.some.injEq]
      rw [hbodies, hback]
      simp only [front, String.empty_append]
    · rw [hrest]
      rfl
    · rw [htexts]
      simp [textDelta]
    · rw [hservers]
      simp [serverPart]
    · rw [hrest]
      rfl
  | none =>
    rw [hget] at h
    have hblocks : (o.step (.toolCallDelta id name arguments metadata)).blocks
        = o.blocks ++ [.call id] := by
      refine if_neg (fun hmem => ?_)
      obtain ⟨i, hi⟩ := (hm.indexed.mem id).mp hmem
      rw [hget] at hi
      simp at hi
    have hindexed := hm.indexed.start hget
    have hcall : ((c.content ++ [Content.toolCall id "" "" false false []])[c.content.length]?).map
        kind = some (.call id) := by simp [kind]
    obtain ⟨hrest, hkinds, hbodies, htexts, hservers⟩ := extendCall_eq_ok hcall h
    refine ⟨⟨?_, ?_, ?_, ?_, fun e he => ?_, ?_⟩, fun j => ?_, fun j => ?_, ?_, ?_, ?_⟩
    · rw [hkinds, hblocks, List.map_append, hm.kinds]
      rfl
    · rw [hrest]
      exact hm.textBlock
    · rw [hrest]
      exact hm.reasoningBlock
    · rw [hrest, hblocks]
      rw [hm.length]
      exact hindexed
    · rw [hrest] at he
      rw [hblocks]
      exact getElem?_push.mpr (Or.inl (hm.summaries e he))
    · rw [hrest]
      exact hm.nodup
    · have hback : back o (.toolCallDelta id name arguments metadata) j
          = if c.content.length = j then arguments else "" := by
        simp only [back, hblocks, ← hindexed id j, IndexMap.get_insert_self, Option.some.injEq,
          hm.length]
      rw [hbodies, hback]
      rw [bodyAt_push]
      split
      · rename_i heq
        have hempty : bodyAt c.content j = "" := by
          rw [bodyAt, List.getElem?_eq_none (Nat.le_of_eq heq.symm)]
          rfl
        rw [hempty]
        rfl
      · rfl
    · rw [hrest]
      rfl
    · rw [htexts]
      simp only [textContent, List.filterMap_append, String.join_append]
      rfl
    · rw [hservers]
      simp [serverPart, serverCall]
    · rw [hrest]
      rfl

end Calls

/-! ## Every part -/

/-- **Every part has its effect.** -/
theorem effect {c c' : Collector} {o : Outline} (hm : Mirrors c o) (hw : o.Wf) {part : StreamPart}
    (h : c.apply part = .ok c') : Effect c o part c' := by
  cases part with
  | textDelta text => exact effect_textDelta hm hw h
  | toolCallDelta id name arguments metadata => exact effect_toolCallDelta hm h
  | serverToolCall id name arguments serverName dynamic =>
    obtain rfl := Except.ok.inj h
    exact hm.push (b := .toolCall id name arguments true dynamic
      (Collector.serverMetadata serverName dynamic))
      rfl rfl rfl rfl (by simp [kind]) rfl hm.textBlock hm.reasoningBlock (fun _ => rfl)
      (fun _ => rfl) (fun _ => rfl) rfl rfl rfl rfl
  | serverToolResult callId toolName output dynamic =>
    obtain rfl := Except.ok.inj h
    exact hm.push (b := .toolResult callId toolName output dynamic [])
      rfl rfl rfl rfl (by simp [kind]) rfl hm.textBlock hm.reasoningBlock (fun _ => rfl)
      (fun _ => rfl) (fun _ => rfl) rfl rfl rfl rfl
  | usage _ | finish _ =>
    obtain rfl := Except.ok.inj h
    exact hm.still rfl rfl rfl rfl hm.textBlock hm.reasoningBlock (fun _ => rfl) (fun _ => rfl)
      (fun _ => rfl) rfl rfl rfl
  | responseCompleted completion usage =>
    obtain ⟨_, -, h⟩ := bind_eq_ok.mp h
    obtain ⟨reason, -, h⟩ := bind_eq_ok.mp h
    obtain rfl := pure_eq_ok.mp h
    exact hm.still rfl rfl rfl rfl hm.textBlock hm.reasoningBlock (fun _ => rfl) (fun _ => rfl)
      (fun _ => rfl) rfl rfl rfl
  | other part =>
    cases part with
    | textStart id =>
      obtain rfl := Except.ok.inj h
      refine hm.push (b := .text "" []) rfl rfl rfl rfl (by simp [kind]) rfl ?_ hm.reasoningBlock
        (fun _ => rfl) (fun _ => rfl) (fun _ => rfl) rfl rfl rfl rfl
      rw [hm.length]
      rfl
    | textEnd id =>
      obtain ⟨_, -, h⟩ := bind_eq_ok.mp h
      obtain rfl := pure_eq_ok.mp h
      exact hm.still rfl rfl rfl rfl rfl hm.reasoningBlock (fun _ => rfl) (fun _ => rfl)
        (fun _ => rfl) rfl rfl rfl
    | reasoningStart id protocol =>
      obtain rfl := Except.ok.inj h
      refine hm.push (b := .other (.reasoning "" [] none)) rfl rfl rfl rfl (by simp [kind]) rfl
        hm.textBlock ?_ (fun _ => rfl) (fun _ => rfl) (fun _ => rfl) rfl rfl rfl rfl
      rw [hm.length]
      rfl
    | reasoningDelta text sourceKind => exact effect_reasoningDelta hm h
    | reasoningEnd id signature native => exact effect_reasoningEnd hm h
    | file mediaType data =>
      obtain rfl := Except.ok.inj h
      exact hm.push (b := .other (.file mediaType data none [])) rfl rfl rfl rfl
        (by simp [kind]) rfl
        hm.textBlock hm.reasoningBlock (fun _ => rfl) (fun _ => rfl) (fun _ => rfl) rfl rfl rfl rfl
    | source source =>
      obtain rfl := Except.ok.inj h
      exact hm.push (b := .other (.source source [])) rfl rfl rfl rfl (by simp [kind]) rfl
        hm.textBlock hm.reasoningBlock (fun _ => rfl) (fun _ => rfl) (fun _ => rfl) rfl rfl rfl rfl
    | responseStarted id protocol =>
      obtain rfl := Except.ok.inj h
      exact hm.still rfl rfl rfl rfl hm.textBlock hm.reasoningBlock (fun _ => rfl) (fun _ => rfl)
        (fun _ => rfl) rfl rfl rfl

end BitRouter.Gateway
