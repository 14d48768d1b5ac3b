import Mathlib.Data.List.DropRight
import BitRouter.Gateway.MessagesWire

/-!
# The reasoning an encoder holds back

The Messages encoder holds one text of reasoning until a signature arrives. A
start begins it anew, whatever block is open; an end, a text, a call or a
citation drops it, although a block goes on (`interruptsReasoning`). So it
holds the text since the last of these, if a start or a delta came since it was
dropped (`heldBy_eq`), and tells a block whole exactly if that is the text of
the block (`KeepsReasoning`).
-/

namespace BitRouter.Gateway

open Ai

/-! ## What a part does to the held text -/

/-- Whether a part drops the reasoning that is held. -/
def interruptsReasoning : StreamPart → Bool
  | .textDelta _ => true
  | .toolCallDelta _ _ _ _ => true
  | .finish _ => true
  | .responseCompleted _ _ => true
  | .other (.textStart _) => true
  | .other (.textEnd _) => true
  | .other (.source _) => true
  | _ => false

/-- The end of a block of reasoning. -/
def endsReasoning : StreamPart → Bool
  | .other (.reasoningEnd _ _ _) => true
  | _ => false

/-- The start of a block of reasoning. -/
def startsReasoning : StreamPart → Bool
  | .other (.reasoningStart _ _) => true
  | _ => false

/-- What is held after a part that is neither a start nor an end. -/
def keep (held : Option String) (part : StreamPart) : Option String :=
  match reasoningText part with
  | some text => some (held.getD "" ++ text)
  | none => if interruptsReasoning part then none else held

def heldAfter (held : Option String) : StreamPart → Option String
  | .other (.reasoningStart _ _) => some ""
  | .other (.reasoningEnd _ _ _) => none
  | part => keep held part

namespace MessagesEncoding

variable {out : MessagesEncoding}

@[simp] theorem closeBlock_pendingReasoning :
    out.closeBlock.encoder.pendingReasoning = out.encoder.pendingReasoning := by
  unfold closeBlock
  split <;> rfl

@[simp] theorem ensureBlockOpen_pendingReasoning (kind : EncoderBlockKind) :
    (out.ensureBlockOpen kind).1.encoder.pendingReasoning = out.encoder.pendingReasoning := by
  unfold ensureBlockOpen
  dsimp only
  split
  · split <;> simp
  · split <;> simp

@[simp] theorem flushPendingSources_pendingReasoning :
    out.flushPendingSources.encoder.pendingReasoning = out.encoder.pendingReasoning := by
  unfold flushPendingSources
  split
  · rfl
  · show (closeBlock _).encoder.pendingReasoning = _
    rw [closeBlock_pendingReasoning]

theorem emitTerminal_pendingReasoning (stopReason : String) (usage : Option Usage) :
    (out.emitTerminal stopReason usage).encoder.pendingReasoning = none := by
  show out.dropReasoning.flushPendingSources.closeBlock.encoder.pendingReasoning = none
  rw [closeBlock_pendingReasoning, flushPendingSources_pendingReasoning]
  rfl

/-- **What the encoder holds after a part.** -/
theorem encodePart_pendingReasoning : (out.encodePart part).encoder.pendingReasoning
    = heldAfter out.encoder.pendingReasoning part := by
  cases part with
  | textDelta text =>
    show (out.textDelta text).encoder.pendingReasoning = none
    have hopen := out.dropReasoning.ensureBlockOpen_pendingReasoning .text
    unfold textDelta
    cases hpair : out.dropReasoning.ensureBlockOpen .text with
    | mk out' new =>
      rw [hpair] at hopen
      cases new <;> exact hopen
  | toolCallDelta id name arguments metadata =>
    show (out.toolCallDelta id name arguments).encoder.pendingReasoning = none
    have hopen := out.dropReasoning.closeBlock.ensureBlockOpen_pendingReasoning .toolUse
    rw [closeBlock_pendingReasoning] at hopen
    unfold toolCallDelta
    cases givenName name with
    | none =>
      dsimp only
      split <;> rfl
    | some name =>
      dsimp only
      split <;> exact hopen
  | serverToolCall id name arguments serverName dynamic => exact closeBlock_pendingReasoning
  | serverToolResult callId toolName output dynamic => exact closeBlock_pendingReasoning
  | usage usage => rfl
  | finish reason => exact emitTerminal_pendingReasoning _ _
  | responseCompleted completion usage => exact emitTerminal_pendingReasoning _ _
  | other part =>
    cases part with
    | textStart id => exact closeBlock_pendingReasoning
    | textEnd id => exact closeBlock_pendingReasoning
    | reasoningStart id protocol => rfl
    | reasoningDelta text kind =>
      show (out.pushReasoningDelta text).encoder.pendingReasoning = some _
      unfold pushReasoningDelta
      cases hheld : out.encoder.pendingReasoning with
      | none => rfl
      | some buffer =>
        show out.encoder.pendingReasoning.map _ = _
        rw [hheld]
        rfl
    | reasoningEnd id signature native =>
      show (out.flushReasoningBuffer signature).encoder.pendingReasoning = none
      unfold flushReasoningBuffer
      split <;> rfl
    | file mediaType data => rfl
    | source source => rfl
    | responseStarted id protocol => rfl

end MessagesEncoding

/-! ## What the encoder holds of a stream -/

/-- What the encoder holds after some parts. -/
def heldBy (parts : List StreamPart) : Option String := parts.foldl heldAfter none

/-- A part that begins the held text anew, or drops it. -/
def breaksReasoning (part : StreamPart) : Bool :=
  interruptsReasoning part || endsReasoning part || startsReasoning part

/-- **The parts since the last break.** -/
def lately (parts : List StreamPart) : List StreamPart :=
  parts.rtakeWhile (fun part => !breaksReasoning part)

/-- **Reasoning is under way**: a start or a delta came, and no part that drops
what is held since. -/
def Reasons (parts : List StreamPart) : Prop :=
  Since (fun part => startsReasoning part = true ∨ (reasoningText part).isSome = true)
    (fun part => interruptsReasoning part = true ∨ endsReasoning part = true) parts

instance (parts : List StreamPart) : Decidable (Reasons parts) :=
  inferInstanceAs (Decidable (Since _ _ parts))

variable {parts : List StreamPart} {part : StreamPart}

theorem heldBy_concat : heldBy (parts ++ [part]) = heldAfter (heldBy parts) part := by
  unfold heldBy
  rw [List.foldl_append]
  rfl

theorem lately_concat :
    lately (parts ++ [part]) = if breaksReasoning part then [] else lately parts ++ [part] := by
  unfold lately
  rw [List.rtakeWhile_concat]
  cases breaksReasoning part <;> rfl

/-- What is held of a part that says nothing of the reasoning. -/
theorem heldAfter_quiet {held : Option String} (htext : reasoningText part = none)
    (hbreaks : breaksReasoning part = false) : heldAfter held part = held := by
  cases part with
  | other part =>
    cases part with
    | reasoningStart id protocol => cases hbreaks
    | reasoningEnd id signature native => cases hbreaks
    | reasoningDelta text kind => cases htext
    | textStart id => cases hbreaks
    | textEnd id => cases hbreaks
    | source source => cases hbreaks
    | _ => rfl
  | textDelta text => cases hbreaks
  | toolCallDelta id name arguments metadata => cases hbreaks
  | finish reason => cases hbreaks
  | responseCompleted completion usage => cases hbreaks
  | _ => rfl

/-- A part that drops what is held. -/
theorem heldAfter_drops (held : Option String)
    (hdrops : interruptsReasoning part = true ∨ endsReasoning part = true) :
    heldAfter held part = none ∧ startsReasoning part = false ∧ reasoningText part = none := by
  cases part with
  | other part =>
    cases part with
    | reasoningEnd id signature native => exact ⟨rfl, rfl, rfl⟩
    | textStart id => exact ⟨rfl, rfl, rfl⟩
    | textEnd id => exact ⟨rfl, rfl, rfl⟩
    | source source => exact ⟨rfl, rfl, rfl⟩
    | _ => rcases hdrops with h | h <;> cases h
  | textDelta text => exact ⟨rfl, rfl, rfl⟩
  | toolCallDelta id name arguments metadata => exact ⟨rfl, rfl, rfl⟩
  | finish reason => exact ⟨rfl, rfl, rfl⟩
  | responseCompleted completion usage => exact ⟨rfl, rfl, rfl⟩
  | _ => rcases hdrops with h | h <;> cases h

/-- If no reasoning is under way, none was said lately. -/
theorem reasoningTexts_lately (h : ¬ Reasons parts) : reasoningTexts (lately parts) = "" := by
  induction parts using List.reverseRecOn with
  | nil => rfl
  | append_singleton parts part ih =>
    have hsince : Reasons (parts ++ [part]) ↔ _ := since_concat
    rw [hsince, not_or, not_or, not_and] at h
    obtain ⟨⟨hstarts, htext⟩, hrest⟩ := h
    rw [lately_concat]
    cases hbreaks : breaksReasoning part with
    | true => rfl
    | false =>
      have hquiet : ¬ (interruptsReasoning part = true ∨ endsReasoning part = true) := by
        intro hdrops
        rw [breaksReasoning, Bool.or_eq_false_iff, Bool.or_eq_false_iff] at hbreaks
        obtain ⟨⟨hinterrupts, hends⟩, -⟩ := hbreaks
        rw [hinterrupts, hends] at hdrops
        exact hdrops.elim Bool.false_ne_true Bool.false_ne_true
      rw [if_neg Bool.false_ne_true, reasoningTexts_concat, ih (hrest hquiet),
        Option.not_isSome_iff_eq_none.mp htext]
      rfl

/-- **The encoder holds what was said lately**, if reasoning is under way. -/
theorem heldBy_eq (parts : List StreamPart) :
    heldBy parts = if Reasons parts then some (reasoningTexts (lately parts)) else none := by
  induction parts using List.reverseRecOn with
  | nil => exact (if_neg not_since_nil).symm
  | append_singleton parts part ih =>
    have hsince : Reasons (parts ++ [part]) ↔ _ := since_concat
    rw [heldBy_concat, lately_concat]
    by_cases hdrops : interruptsReasoning part = true ∨ endsReasoning part = true
    · obtain ⟨hheld, hstarts, htext⟩ := heldAfter_drops (heldBy parts) hdrops
      rw [hheld, if_neg]
      rw [hsince, hstarts, htext]
      rintro ((hfalse | hfalse) | ⟨hquiet, -⟩)
      · exact Bool.false_ne_true hfalse
      · exact Bool.false_ne_true hfalse
      · exact hquiet hdrops
    · by_cases hstarts : startsReasoning part = true
      · have hbreaks : breaksReasoning part = true := by rw [breaksReasoning, hstarts, Bool.or_true]
        rw [if_pos (hsince.mpr (Or.inl (Or.inl hstarts))), if_pos hbreaks]
        cases part with
        | other part => cases part <;> first | rfl | cases hstarts
        | _ => cases hstarts
      · have hbreaks : breaksReasoning part = false := by
          rw [not_or] at hdrops
          simp [breaksReasoning, hdrops, hstarts]
        rw [hbreaks, if_neg Bool.false_ne_true, reasoningTexts_concat]
        cases htext : reasoningText part with
        | none =>
          have hsame : Reasons (parts ++ [part]) ↔ Reasons parts := by
            rw [hsince, htext]
            simp [hstarts, hdrops, Reasons]
          rw [heldAfter_quiet htext hbreaks, ih, Option.getD_none, String.append_empty]
          exact if_congr hsame.symm rfl rfl
        | some text =>
          rw [if_pos (hsince.mpr (Or.inl (Or.inr (by rw [htext]; rfl))))]
          have hpart : heldAfter (heldBy parts) part = some ((heldBy parts).getD "" ++ text) := by
            cases part with
            | other part =>
              cases part with
              | reasoningDelta text kind =>
                cases htext
                rfl
              | _ => cases htext
            | _ => cases htext
          rw [hpart, ih]
          split
          · rfl
          · rename_i hnot
            -- Nothing was said since the last break, or reasoning would be under way.
            rw [Option.getD_none, Option.getD_some, reasoningTexts_lately hnot]

/-! ## What is told of a block that ends -/

/-- The text that is held, told with the signature of an end. -/
def sealedHeld (held signature : Option String) : List (String × String) :=
  match held, signature with
  | some text, some signature => [(text, signature)]
  | _, _ => []

/-- What the encoder tells at a part. -/
def sealedNow (held : Option String) : StreamPart → List (String × String)
  | .other (.reasoningEnd _ signature _) => sealedHeld held signature
  | _ => []

/-- What is to be told at a part. -/
def ReasoningLog.sealsNow (log : ReasoningLog) : StreamPart → List (String × String)
  | .other (.reasoningEnd id signature _) => sealBlock (log.closedBy id) signature
  | _ => []

theorem ReasoningLog.sealed_step (log : ReasoningLog) (part : StreamPart) :
    (log.step part).sealed = log.sealed ++ log.sealsNow part := by
  unfold step sealsNow
  split <;> simp

/-- **What the end of a block has to meet** for the encoder to tell the block
whole, if it has a signature: reasoning is under way, and what was said lately
is the text of the block. -/
def KeepsReasoning (parts : List StreamPart) : StreamPart → Prop
  | .other (.reasoningEnd id (some _) _) => ∀ block ∈ (reasoningLog parts).closedBy id,
    Reasons parts ∧ reasoningTexts (lately parts) = block.text
  | _ => True

/-- The encoder holds nothing while no block is open. -/
theorem heldBy_of_closed (h : (reasoningLog parts).opened = []) : heldBy parts = none := by
  induction parts using List.reverseRecOn with
  | nil => rfl
  | append_singleton parts part ih =>
    rw [reasoningLog_concat] at h
    rw [heldBy_concat]
    have hother (hopened : (reasoningLog parts).opened = []) (hsilent : reasoningText part = none) :
        keep (heldBy parts) part = none := by
      rw [ih hopened, keep, hsilent]
      exact ite_self _
    cases part with
    | other part =>
      cases part with
      | reasoningStart id protocol => exact absurd h (List.cons_ne_nil _ _)
      | reasoningDelta text kind =>
        exfalso
        revert h
        show ReasoningLog.extend text (reasoningLog parts).opened ≠ []
        cases (reasoningLog parts).opened <;> exact List.cons_ne_nil _ _
      | reasoningEnd id signature native => rfl
      | _ => exact hother h rfl
    | _ => exact hother h rfl

theorem opened_of_closedBy {log : ReasoningLog} {id : String} (h : log.closedBy id = none) :
    log.opened = [] := by
  unfold ReasoningLog.closedBy at h
  exact List.head?_eq_none_iff.mp (Option.or_eq_none_iff.mp h).2

/-- **What is told at a part** is no more than what is to be told, and it is
the same exactly if the part keeps the reasoning. -/
theorem sealedNow_eq_iff (parts : List StreamPart) (part : StreamPart) :
    (sealedNow (heldBy parts) part).length ≤ ((reasoningLog parts).sealsNow part).length
    ∧ (sealedNow (heldBy parts) part = (reasoningLog parts).sealsNow part
      ↔ KeepsReasoning parts part) := by
  have hsame (heq : sealedNow (heldBy parts) part = (reasoningLog parts).sealsNow part)
      (hkeeps : KeepsReasoning parts part) :
      (sealedNow (heldBy parts) part).length ≤ ((reasoningLog parts).sealsNow part).length
      ∧ (sealedNow (heldBy parts) part = (reasoningLog parts).sealsNow part
        ↔ KeepsReasoning parts part) :=
    ⟨by rw [heq], fun _ => hkeeps, fun _ => heq⟩
  cases part with
  | other part =>
    cases part with
    | reasoningEnd id signature native =>
      cases signature with
      | none =>
        refine hsame ?_ trivial
        show sealedHeld (heldBy parts) none = ReasoningLog.sealBlock _ none
        cases heldBy parts <;> cases (reasoningLog parts).closedBy id <;> rfl
      | some signature =>
        show (sealedHeld (heldBy parts) (some signature)).length
            ≤ (ReasoningLog.sealBlock ((reasoningLog parts).closedBy id) (some signature)).length
          ∧ (sealedHeld (heldBy parts) (some signature)
              = ReasoningLog.sealBlock ((reasoningLog parts).closedBy id) (some signature)
            ↔ ∀ block ∈ (reasoningLog parts).closedBy id,
              Reasons parts ∧ reasoningTexts (lately parts) = block.text)
        cases hclosed : (reasoningLog parts).closedBy id with
        | none =>
          rw [heldBy_of_closed (opened_of_closedBy hclosed)]
          exact ⟨le_refl _, fun _ block hblock => absurd hblock (by simp), fun _ => rfl⟩
        | some block =>
          rw [heldBy_eq]
          by_cases hreasons : Reasons parts
          · rw [if_pos hreasons]
            simp [sealedHeld, ReasoningLog.sealBlock, hreasons]
          · rw [if_neg hreasons]
            simp [sealedHeld, ReasoningLog.sealBlock, hreasons]
    | _ => exact hsame rfl trivial
  | _ => exact hsame rfl trivial

end BitRouter.Gateway
