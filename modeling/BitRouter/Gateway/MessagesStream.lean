import BitRouter.Data.Run
import BitRouter.Gateway.CallTracking
import BitRouter.Gateway.HeldReasoning
import BitRouter.Gateway.MessagesClient

/-!
# What a Messages client is told

A client that reads the frames of a stream is told what its parts say: the
texts, the calls with their fragments, and the signed blocks of reasoning. The
encoder has one open block, and puts a fragment into whichever that is; and it
holds one text of reasoning, whatever block the text is of. So the client is
told so exactly when each fragment arrives while the block of its own call is
open, and a block of reasoning that ends with a signature has the text that is
held (`messagesStream_tells_iff`).
-/

namespace BitRouter.Gateway

open Ai

/-! ## The contents of a step -/

namespace ReadBlock

variable {b : ReadBlock} {d : BlockDelta}

def push (b : ReadBlock) (d : BlockDelta) : ReadBlock := { b with deltas := b.deltas ++ [d] }

theorem texts_push : (b.push d).texts = b.texts ++ d.asText.toList := by
  show (b.deltas ++ [d]).filterMap BlockDelta.asText = _
  rw [List.filterMap_append]
  cases d <;> rfl

theorem joined_push (value : BlockDelta → Option String) :
    (b.push d).joined value = b.joined value ++ (value d).getD "" := by
  show String.join ((b.deltas ++ [d]).filterMap value) = _
  rw [List.filterMap_append, String.join_append]
  cases h : value d with
  | none => rw [List.filterMap_cons_none h]; rfl
  | some text => rw [List.filterMap_cons_some h, List.filterMap_nil]; simp; rfl

theorem call_push : (b.push d).call = b.call.map fun c =>
    { c with arguments := c.arguments ++ d.asInput.getD "" } := by
  have hjoined := joined_push (b := b) (d := d) BlockDelta.asInput
  obtain ⟨block, deltas⟩ := b
  cases block with
  | toolUse id name =>
    exact congrArg (fun arguments => some (StreamedCall.mk id name arguments)) hjoined
  | _ => rfl

theorem reasoning_push (hthinking : d.asThinking = none) (hsignature : d.asSignature = none) :
    (b.push d).reasoning = b.reasoning := by
  have htext := joined_push (b := b) (d := d) BlockDelta.asThinking
  have hsigned := joined_push (b := b) (d := d) BlockDelta.asSignature
  rw [hthinking, Option.getD_none, String.append_empty] at htext
  rw [hsignature, Option.getD_none, String.append_empty] at hsigned
  obtain ⟨block, deltas⟩ := b
  cases block with
  | thinking => exact congrArg some (Prod.ext htext hsigned)
  | _ => rfl

end ReadBlock

namespace MessagesReader

variable {r : MessagesReader} {block : ContentBlock} {deltas : List BlockDelta} {delta : BlockDelta}
  {opened : ReadBlock} {held : Option String} {part : StreamPart}

@[simp] theorem blocks_close : r.close.blocks = r.blocks := List.append_nil _

theorem blocks_openBlock (h : r.opened = none) :
    (r.openBlock block).blocks = r.blocks ++ [⟨block, []⟩] := by
  unfold blocks
  rw [h, Option.toList_none, List.append_nil]
  rfl

theorem blocks_whole (h : r.opened = none) :
    (r.whole block deltas).blocks = r.blocks ++ [⟨block, deltas⟩] := by
  unfold blocks
  rw [show (r.whole block deltas).opened = none from h, h]
  simp [whole]

theorem blocks_of_opened (h : r.opened = some opened) : r.blocks = r.closed ++ [opened] := by
  unfold blocks
  rw [h]
  rfl

theorem blocks_add (h : r.opened = some opened) :
    (r.add delta).blocks = r.closed ++ [opened.push delta] := by
  unfold add blocks
  rw [h]
  rfl

/-! ### Texts -/

theorem texts_close : r.close.texts = r.texts := by
  unfold texts
  rw [blocks_close]

theorem texts_openBlock (h : r.opened = none) : (r.openBlock block).texts = r.texts := by
  unfold texts
  rw [blocks_openBlock h, List.flatMap_append]
  exact List.append_nil _

theorem texts_whole (h : r.opened = none) (hnone : ∀ d ∈ deltas, d.asText = none) :
    (r.whole block deltas).texts = r.texts := by
  unfold texts
  rw [blocks_whole h, List.flatMap_append, List.flatMap_singleton]
  show _ ++ deltas.filterMap _ = _
  rw [List.filterMap_eq_nil_iff.mpr hnone, List.append_nil]

theorem texts_add (h : r.opened = some opened) :
    (r.add delta).texts = r.texts ++ delta.asText.toList := by
  unfold texts
  rw [blocks_add h, blocks_of_opened h, List.flatMap_append, List.flatMap_append,
    List.flatMap_singleton, List.flatMap_singleton, ReadBlock.texts_push, List.append_assoc]

/-! ### Calls -/

/-- The calls a client was told. -/
def track (r : MessagesReader) : CallTrack where
  done := r.closed.filterMap ReadBlock.call
  running := r.opened.bind ReadBlock.call

theorem all_track : r.track.all = r.calls := by
  unfold CallTrack.all track calls blocks
  rw [List.filterMap_append]
  cases r.opened with
  | none => rfl
  | some opened =>
    show r.closed.filterMap ReadBlock.call ++ opened.call.toList
      = _ ++ [opened].filterMap ReadBlock.call
    cases hcall : opened.call with
    | none => rw [List.filterMap_cons_none hcall]; rfl
    | some call => rw [List.filterMap_cons_some hcall]; rfl

theorem track_close : r.close.track = r.track.settle := by
  unfold CallTrack.settle
  rw [all_track]
  rfl

theorem track_openBlock : (r.openBlock block).track
    = { r.track with running := (ReadBlock.mk block []).call } := rfl

theorem track_whole (hcall : (ReadBlock.mk block deltas).call = none) :
    (r.whole block deltas).track = r.track := by
  show CallTrack.mk ((r.closed ++ [_]).filterMap _) _ = _
  rw [List.filterMap_append, List.filterMap_cons_none hcall]
  show CallTrack.mk (_ ++ []) _ = _
  rw [List.append_nil]
  rfl

theorem track_add : (r.add delta).track = { r.track with
    running := r.track.running.map fun c =>
      { c with arguments := c.arguments ++ delta.asInput.getD "" } } := by
  unfold track add
  cases r.opened with
  | none => rfl
  | some opened =>
    show CallTrack.mk _ (ReadBlock.call (opened.push delta)) = _
    rw [ReadBlock.call_push]
    rfl

/-- A delta of another type changes no call. -/
theorem track_add_of_none (hnone : delta.asInput = none) : (r.add delta).track = r.track := by
  rw [track_add, hnone]
  show CallTrack.mk _ _ = _
  have hsame : r.track.running.map (fun c => { c with arguments := c.arguments ++ "" })
      = r.track.running := by
    cases r.track.running with
    | none => rfl
    | some c =>
      show some (StreamedCall.mk c.id c.name (c.arguments ++ "")) = some c
      rw [String.append_empty]
  exact congrArg (CallTrack.mk _) hsame

/-! ### Reasoning -/

theorem reasoning_close : r.close.reasoning = r.reasoning := by
  unfold reasoning
  rw [blocks_close]

theorem reasoning_openBlock (h : r.opened = none) :
    (r.openBlock block).reasoning = r.reasoning ++ (ReadBlock.mk block []).reasoning.toList := by
  unfold reasoning
  rw [blocks_openBlock h, List.filterMap_append]
  cases block <;> rfl

theorem reasoning_whole (h : r.opened = none) :
    (r.whole block deltas).reasoning = r.reasoning
        ++ (ReadBlock.mk block deltas).reasoning.toList := by
  unfold reasoning
  rw [blocks_whole h, List.filterMap_append]
  cases block <;> rfl

theorem reasoning_add (h : r.opened = some opened) (hthinking : delta.asThinking = none)
    (hsignature : delta.asSignature = none) : (r.add delta).reasoning = r.reasoning := by
  unfold reasoning
  rw [blocks_add h, blocks_of_opened h, List.filterMap_append, List.filterMap_append]
  congr 1
  have hpush := ReadBlock.reasoning_push (b := opened) hthinking hsignature
  cases hopened : opened.reasoning with
  | none => rw [List.filterMap_cons_none hopened, List.filterMap_cons_none (hpush.trans hopened)]
  | some entry =>
    rw [List.filterMap_cons_some hopened, List.filterMap_cons_some (hpush.trans hopened)]

/-! ### Parts -/

theorem add_of_none (h : r.opened = none) : r.add delta = r := by
  unfold add
  rw [h]
  show MessagesReader.mk r.phase r.closed none = r
  rw [← h]

theorem texts_addInput (arguments : String) : (r.addInput arguments).texts = r.texts := by
  unfold addInput
  split
  · rfl
  · cases h : r.opened with
    | none => rw [add_of_none h]
    | some opened => exact (texts_add h).trans (List.append_nil _)

theorem reasoning_addInput (arguments : String) :
    (r.addInput arguments).reasoning = r.reasoning := by
  unfold addInput
  split
  · rfl
  · cases h : r.opened with
    | none => rw [add_of_none h]
    | some opened => exact reasoning_add h rfl rfl

theorem texts_ensureText : r.ensureText.texts = r.texts := by
  unfold ensureText
  split
  · rfl
  · rw [texts_openBlock rfl, texts_close]

theorem serverToolBlock_call {id name : String} {serverName : Option String} {dynamic : Bool} :
    (ReadBlock.mk (MessagesEncoding.serverToolBlock id name serverName dynamic) deltas).call = none
    ∧ (ReadBlock.mk (MessagesEncoding.serverToolBlock id name serverName dynamic) deltas).reasoning
      = none := by
  unfold MessagesEncoding.serverToolBlock
  split
  · split <;> exact ⟨rfl, rfl⟩
  · exact ⟨rfl, rfl⟩

/-- **The texts of a step** are those of its part. -/
theorem texts_after (hheld : held.isSome = true → r.opened = none) :
    (r.after held part).texts = r.texts ++ (visibleDelta part).toList := by
  cases part with
  | textDelta text =>
    obtain ⟨opened, hopened, -⟩ := r.ensureText_opened
    exact (texts_add hopened).trans (by rw [texts_ensureText]; rfl)
  | toolCallDelta id name arguments metadata =>
    show ((r.ensureTool id (givenName name)).addInput arguments).texts = r.texts ++ []
    rw [texts_addInput, List.append_nil]
    cases givenName name with
    | none => rfl
    | some name => exact (texts_openBlock rfl).trans texts_close
  | serverToolCall id name arguments serverName dynamic =>
    refine (texts_whole rfl fun d hd => ?_).trans (texts_close.trans (List.append_nil _).symm)
    split at hd
    · exact absurd hd List.not_mem_nil
    · rw [List.mem_singleton.mp hd]
      rfl
  | serverToolResult callId toolName output dynamic =>
    exact (texts_whole rfl fun d hd => absurd hd List.not_mem_nil).trans
      (texts_close.trans (List.append_nil _).symm)
  | other part =>
    refine Eq.trans ?_ (List.append_nil _).symm
    cases part with
    | textStart id => exact (texts_openBlock rfl).trans texts_close
    | textEnd id => exact texts_close
    | reasoningStart id protocol => exact texts_close
    | reasoningDelta text kind => exact texts_close
    | reasoningEnd id signature native =>
      show (r.endReasoning held signature).texts = r.texts
      unfold endReasoning
      split
      · refine texts_whole (hheld rfl) fun d hd => ?_
        rcases List.mem_append.mp hd with hd | hd
        · split at hd
          · exact absurd hd List.not_mem_nil
          · rw [List.mem_singleton.mp hd]
            rfl
        · rw [List.mem_singleton.mp hd]
          rfl
      · rfl
    | _ => rfl
  | _ => exact (List.append_nil _).symm

theorem reasoning_thinkingDeltas (text signature : String) :
    (ReadBlock.mk .thinking (thinkingDeltas text signature)).reasoning
        = some (text, signature) := by
  have hjoin : ∀ value : String, String.join [value] = value := fun value => by simp
  unfold thinkingDeltas
  split
  · rename_i hempty
    show some (String.join [], String.join [signature]) = _
    rw [hjoin, hempty]
    rfl
  · show some (String.join [text], String.join [signature]) = _
    rw [hjoin, hjoin]

/-- **The reasoning of a step** is what the encoder holds of it. -/
theorem reasoning_after (hheld : held.isSome = true → r.opened = none) :
    (r.after held part).reasoning = r.reasoning ++ sealedNow held part := by
  cases part with
  | textDelta text =>
    obtain ⟨opened, hopened, -⟩ := r.ensureText_opened
    refine (reasoning_add hopened rfl rfl).trans (Eq.trans ?_ (List.append_nil _).symm)
    unfold ensureText
    split
    · rfl
    · exact (reasoning_openBlock rfl).trans ((List.append_nil _).trans reasoning_close)
  | toolCallDelta id name arguments metadata =>
    show ((r.ensureTool id (givenName name)).addInput arguments).reasoning = r.reasoning ++ []
    rw [reasoning_addInput, List.append_nil]
    cases givenName name with
    | none => rfl
    | some name =>
      exact (reasoning_openBlock rfl).trans ((List.append_nil _).trans reasoning_close)
  | serverToolCall id name arguments serverName dynamic =>
    refine (reasoning_whole rfl).trans ?_
    rw [serverToolBlock_call.2, reasoning_close]
    rfl
  | serverToolResult callId toolName output dynamic =>
    refine (reasoning_whole rfl).trans ?_
    rw [reasoning_close]
    rfl
  | other part =>
    cases part with
    | reasoningEnd id signature native =>
      show (r.endReasoning held signature).reasoning = r.reasoning ++ sealedHeld held signature
      cases held with
      | none => exact (List.append_nil _).symm
      | some text =>
        cases signature with
        | none => exact (List.append_nil _).symm
        | some signature =>
          refine (reasoning_whole (hheld rfl)).trans ?_
          rw [reasoning_thinkingDeltas]
          rfl
    | textStart id =>
      exact (reasoning_openBlock rfl).trans (congrArg (· ++ []) reasoning_close)
    | textEnd id => exact reasoning_close.trans (List.append_nil _).symm
    | reasoningStart id protocol => exact reasoning_close.trans (List.append_nil _).symm
    | reasoningDelta text kind => exact reasoning_close.trans (List.append_nil _).symm
    | _ => exact (List.append_nil _).symm
  | _ => exact (List.append_nil _).symm

end MessagesReader

/-- Whether a part closes the block that is open. -/
def reframes : StreamPart → Bool
  | .textDelta _ => true
  | .toolCallDelta _ name _ _ => (givenName name).isSome
  | .serverToolCall _ _ _ _ _ => true
  | .serverToolResult _ _ _ _ => true
  | .other (.textStart _) => true
  | .other (.textEnd _) => true
  | .other (.reasoningStart _ _) => true
  | .other (.reasoningDelta _ _) => true
  | _ => false

namespace MessagesReader

variable {r : MessagesReader} {held : Option String} {part : StreamPart}

theorem track_addInput (arguments : String) :
    (r.addInput arguments).track = r.track.delta "" none arguments := by
  unfold addInput
  split
  · rename_i hempty
    rw [hempty, CallTrack.delta_empty]
  · exact track_add

/-- A block of text is no call. -/
theorem track_ensureText : r.ensureText.track = r.track.settle := by
  unfold ensureText
  split
  · rename_i hany
    refine (CallTrack.settle_of_none ?_).symm
    cases hr : r.opened with
    | none => simp [track, hr]
    | some opened =>
      rw [hr] at hany
      obtain ⟨block, deltas⟩ := opened
      have hkind : block.kind = some .text := of_decide_eq_true hany
      unfold track
      rw [hr]
      cases block with
      | text => rfl
      | _ => exact absurd hkind (by simp [ContentBlock.kind])
  · exact (track_openBlock.trans (by rw [track_close]; rfl))

/-- **The calls of a step.** -/
theorem track_after (hheld : held.isSome = true → r.opened = none) :
    (r.after held part).track = r.track.advance reframes part := by
  cases part with
  | textDelta text => exact (track_add_of_none rfl).trans track_ensureText
  | toolCallDelta id name arguments metadata =>
    show ((r.ensureTool id (givenName name)).addInput arguments).track
      = r.track.delta id (givenName name) arguments
    rw [track_addInput]
    cases givenName name with
    | none => rfl
    | some name =>
      show CallTrack.mk r.close.track.done
        (some (StreamedCall.mk id name ("" ++ arguments))) = _
      rw [track_close, String.empty_append]
      rfl
  | serverToolCall id name arguments serverName dynamic =>
    exact (track_whole serverToolBlock_call.1).trans track_close
  | serverToolResult callId toolName output dynamic => exact (track_whole rfl).trans track_close
  | other part =>
    cases part with
    | textStart id => exact track_openBlock.trans (by rw [track_close]; rfl)
    | textEnd id => exact track_close
    | reasoningStart id protocol => exact track_close
    | reasoningDelta text kind => exact track_close
    | reasoningEnd id signature native =>
      show (r.endReasoning held signature).track = r.track
      unfold endReasoning
      split
      · exact track_whole rfl
      · rfl
    | _ => rfl
  | _ => rfl

end MessagesReader

/-! ## Runs of the encoder -/

section Runs

variable {e : MessagesStreamEncoder} {out next : MessagesEncoding} {r r' : MessagesReader}
  {parts : List StreamPart} {part : StreamPart}

theorem encode_eq_ok (h : e.encode part = .ok next) :
    next = (MessagesEncoding.ensureStarted { encoder := e }).encodePart part := by
  obtain ⟨_, -, h⟩ := bind_eq_ok.mp h
  exact (pure_eq_ok.mp h).symm

theorem ensureStarted_pendingReasoning :
    (MessagesEncoding.ensureStarted { encoder := e }).encoder.pendingReasoning
      = e.pendingReasoning := by
  unfold MessagesEncoding.ensureStarted
  split <;> rfl

/-- **What a client has been told** of the texts and the reasoning of a stream. -/
structure Told (parts : List StreamPart) (e : MessagesStreamEncoder) (r : MessagesReader) :
    Prop where
  synced : Synced e r
  held : e.pendingReasoning = heldBy parts
  texts : r.texts = texts parts
  /-- No more is told of the reasoning than was said. -/
  bounded : r.reasoning.length ≤ (reasoningLog parts).sealed.length
  /-- All of it is told exactly if it is kept. -/
  reasoning : r.reasoning = (reasoningLog parts).sealed ↔ Along KeepsReasoning parts

theorem Told.initial {requestId model : String} : Told [] { requestId, model } {} :=
  ⟨⟨rfl, rfl, rfl, rfl, fun h => absurd h Bool.false_ne_true⟩, rfl, rfl, le_refl _,
    fun _ => along_nil, fun _ => rfl⟩

theorem Told.idle (h : Told parts e r) (hkept : (heldBy parts).isSome = true) :
    r.opened = none := by
  rw [← h.held] at hkept
  exact h.synced.held hkept

theorem Told.live (h : Told parts e r) (hnext : e.encode part = .ok next)
    (hend : part.isTerminal = false) (hstray : ¬ Stray r part) :
    Live r next (r.start.after (heldBy parts) part) := by
  have hlive := (Live.ensureStarted h.synced).encodePart hend hstray
  rwa [ensureStarted_pendingReasoning, h.held, ← encode_eq_ok hnext] at hlive

/-- **What a part tells.** -/
theorem Told.step (h : Told parts e r) (hnext : e.encode part = .ok next)
    (hend : part.isTerminal = false) (hread : r.readAll next.frames = some r') :
    Told (parts ++ [part]) next.encoder r' ∧ r' = r.start.after (heldBy parts) part := by
  have hstray : ¬ Stray r part := by
    intro hstray
    have hunread := (Live.ensureStarted h.synced).unread hstray
    rw [← encode_eq_ok hnext, hread] at hunread
    exact absurd hunread (by simp)
  have hlive := h.live hnext hend hstray
  obtain rfl : r' = _ := Option.some.inj (hread.symm.trans hlive.reads)
  refine ⟨?_, rfl⟩
  have hheld : (heldBy parts).isSome = true → r.start.opened = none := h.idle
  have hreasoning : (r.start.after (heldBy parts) part).reasoning
      = r.reasoning ++ sealedNow (heldBy parts) part :=
    MessagesReader.reasoning_after hheld
  obtain ⟨hle, hkeeps⟩ := sealedNow_eq_iff parts part
  have hsealed : (reasoningLog (parts ++ [part])).sealed
      = (reasoningLog parts).sealed ++ (reasoningLog parts).sealsNow part := by
    rw [reasoningLog_concat, ReasoningLog.sealed_step]
  have hbound := h.bounded
  refine ⟨hlive.synced, ?_, ?_, ?_, ?_⟩
  · rw [encode_eq_ok hnext, MessagesEncoding.encodePart_pendingReasoning,
      ensureStarted_pendingReasoning, h.held, heldBy_concat]
  · refine (MessagesReader.texts_after hheld).trans ?_
    show r.texts ++ _ = Gateway.texts (parts ++ [part])
    rw [h.texts]
    unfold Gateway.texts
    rw [List.filterMap_append]
    cases hvisible : visibleDelta part with
    | none => rw [List.filterMap_cons_none hvisible]; rfl
    | some text => rw [List.filterMap_cons_some hvisible]; rfl
  · rw [hreasoning, hsealed, List.length_append, List.length_append]
    omega
  · rw [hreasoning, hsealed, along_concat, ← h.reasoning, ← hkeeps]
    refine ⟨fun heq => List.append_inj heq ?_, fun ⟨hr, hnow⟩ => by rw [hr, hnow]⟩
    -- Neither the blocks before nor the one told now can be fewer.
    have hlength := congrArg List.length heq
    rw [List.length_append, List.length_append] at hlength
    omega

/-! ### The calls a client is told -/

/-- **One more part** that the client has read. -/
theorem Tracked.after (h : Tracked reframes parts r.track) {held : Option String}
    (hheld : held.isSome = true → r.opened = none) (hcalls : Introduced (parts ++ [part]))
    (hcarries : CarriesCall reframes parts part) :
    Tracked reframes (parts ++ [part]) (r.start.after held part).track := by
  rw [MessagesReader.track_after (r := r.start) hheld]
  exact h.step hcalls (fun _ _ _ _ => rfl) hcarries

theorem MessagesReader.read_eq_some_of_if {c : Prop} [Decidable c] {r₁ : MessagesReader}
    (h : (if c then some r₁ else none) = some r') : r₁ = r' := by
  split at h
  · exact Option.some.inj h
  · exact absurd h (by simp)

/-- A block that is closed stays as it is. -/
theorem MessagesReader.closed_of_read {frame : MessagesFrame} {b : ReadBlock}
    (h : r.read frame = some r') (hb : b ∈ r.closed) : b ∈ r'.closed := by
  cases frame with
  | messageStart id model => exact read_eq_some_of_if h ▸ hb
  | contentBlockStart index block => exact read_eq_some_of_if h ▸ hb
  | contentBlockDelta index delta =>
    unfold read at h
    cases hr : r.opened with
    | none => simp [hr] at h
    | some opened =>
      rw [hr] at h
      exact read_eq_some_of_if h ▸ hb
  | contentBlockStop index =>
    unfold read at h
    cases hr : r.opened with
    | none => simp [hr] at h
    | some opened =>
      rw [hr] at h
      exact read_eq_some_of_if h ▸ List.mem_append_left _ hb
  | messageDelta stopReason usage => exact read_eq_some_of_if h ▸ hb
  | messageStop => exact read_eq_some_of_if h ▸ hb

theorem MessagesReader.done_of_readAll {frames : List MessagesFrame} {call : StreamedCall}
    (h : r.readAll frames = some r') (hcall : call ∈ r.track.done) : call ∈ r'.track.done := by
  obtain ⟨b, hb, hcall⟩ := List.mem_filterMap.mp hcall
  exact List.mem_filterMap.mpr ⟨b, foldlM_preserves (P := fun r : MessagesReader => b ∈ r.closed)
    (fun _ _ _ hb hread => closed_of_read hread hb) frames hb h, hcall⟩

/-! ### Whole runs -/

variable {requestId model : String}

section

variable (hbody : ∀ part ∈ parts, part.isTerminal = false)

include hbody

section

variable (hcalls : Introduced parts)
  (hok : MessagesStreamEncoder.encodeAll { requestId, model } parts = .ok out)

include hcalls hok

end

end

end Runs

/-! ## The end of a stream -/

namespace MessagesReader

variable {r : MessagesReader} {sources : List Registry.Value}

end MessagesReader

/-- **What the parts of a stream have to meet** for the encoder to tell them. -/
def MessagesCarries : List StreamPart → Prop :=
  Along fun pre part => CarriesCall reframes pre part ∧ KeepsReasoning pre part

section Terminal

variable {e : MessagesStreamEncoder} {body : List StreamPart} {last : StreamPart}
  {mid next : MessagesEncoding} {r : MessagesReader}

section

variable (hend : last.isTerminal = true)

include hend

end

end Terminal

instance decidableKeepsReasoning (parts : List StreamPart) (part : StreamPart) :
    Decidable (KeepsReasoning parts part) :=
  match part with
  | .other (.reasoningEnd id (some _) _) =>
    inferInstanceAs (Decidable (∀ block ∈ (reasoningLog parts).closedBy id,
      Reasons parts ∧ reasoningTexts (lately parts) = block.text))
  | .other (.reasoningEnd _ none _) => inferInstanceAs (Decidable True)
  | .textDelta _ | .toolCallDelta _ _ _ _ | .serverToolCall _ _ _ _ _ | .serverToolResult _ _ _ _
  | .usage _ | .finish _ | .responseCompleted _ _ | .other (.textStart _) | .other (.textEnd _)
  | .other (.reasoningStart _ _) | .other (.reasoningDelta _ _) | .other (.file _ _)
  | .other (.source _) | .other (.responseStarted _ _) => inferInstanceAs (Decidable True)

instance decidableMessagesCarries (parts : List StreamPart) : Decidable (MessagesCarries parts) :=
  decidableAlong

-- A block of reasoning inside another loses the outer one.
example : ¬ MessagesCarries [.other (.reasoningStart "0" none),
    .other (.reasoningDelta "a" none), .other (.reasoningStart "1" none),
    .other (.reasoningDelta "b" none), .other (.reasoningEnd "1" (some "sig1") none),
    .other (.reasoningEnd "0" (some "sig0") none), .finish .stop] := by
  decide +kernel

end BitRouter.Gateway
