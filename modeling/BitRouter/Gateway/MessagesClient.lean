import BitRouter.Gateway.MessagesWire

/-!
# The Messages encoder and its client in step

The frames of a part, read by a client. The client is always where the encoder
takes it to be (`Synced`), and what a part does to it is a function of its own
(`MessagesReader.after`, `Live.encodePart`). The one exception is a fragment of
a call that arrives while no block of tool use is open: no client can read it
(`Live.unread`).
-/

namespace BitRouter.Gateway

open Ai

/-! ## Steps of a client -/

def ContentBlock.kind : ContentBlock → Option EncoderBlockKind
  | text => some .text
  | toolUse _ _ => some .toolUse
  | _ => none

namespace MessagesReader

variable {r r' : MessagesReader} {frames : List MessagesFrame} {block : ContentBlock}
  {delta : BlockDelta} {opened : ReadBlock}

def start (r : MessagesReader) : MessagesReader := { r with phase := .streaming }

def close (r : MessagesReader) : MessagesReader :=
  { r with closed := r.blocks, opened := none }

def openBlock (r : MessagesReader) (block : ContentBlock) : MessagesReader :=
  { r with opened := some { block } }

def add (r : MessagesReader) (delta : BlockDelta) : MessagesReader :=
  { r with opened := r.opened.map fun b => { b with deltas := b.deltas ++ [delta] } }

def whole (r : MessagesReader) (block : ContentBlock) (deltas : List BlockDelta) : MessagesReader :=
  { r with closed := r.closed ++ [{ block, deltas }] }

def ensureText (r : MessagesReader) : MessagesReader :=
  if r.opened.any (·.block.kind = some .text) then r else r.close.openBlock .text

/-- The block a fragment is read into. -/
def ensureTool (r : MessagesReader) (id : String) : Option String → MessagesReader
  | some name => r.close.openBlock (.toolUse id name)
  | none => r

def addInput (r : MessagesReader) (arguments : String) : MessagesReader :=
  if arguments = "" then r else r.add (.inputJson arguments)

def thinkingDeltas (text signature : String) : List BlockDelta :=
  (if text = "" then [] else [.thinking text]) ++ [.signature signature]

/-- The end of a block of reasoning. -/
def endReasoning (r : MessagesReader) (held signature : Option String) : MessagesReader :=
  match held, signature with
  | some text, some signature => r.whole .thinking (thinkingDeltas text signature)
  | _, _ => r

/-- The citations of a reply, which come at its end. -/
def cite (r : MessagesReader) (sources : List Registry.Value) : MessagesReader :=
  if sources = [] then r
  else (r.close.whole (.serverToolUse syntheticWebSearchId anthropicWebSearchTool) []).whole
    (.webSearchToolResult syntheticWebSearchId sources) []

/-- **What a part does to a client**, given the reasoning the encoder holds. -/
def after (r : MessagesReader) (held : Option String) : StreamPart → MessagesReader
  | .other (.textStart _) => r.close.openBlock .text
  | .other (.textEnd _) => r.close
  | .textDelta text => r.ensureText.add (.text text)
  | .other (.reasoningStart _ _) => r.close
  | .other (.reasoningDelta _ _) => r.close
  | .other (.reasoningEnd _ signature _) => r.endReasoning held signature
  | .toolCallDelta id name arguments _ =>
    (r.ensureTool id (givenName name)).addInput arguments
  | .serverToolCall id name arguments serverName dynamic =>
    r.close.whole (MessagesEncoding.serverToolBlock id name serverName dynamic)
      (if arguments = "" then [] else [.inputJson arguments])
  | .serverToolResult callId _ output _ =>
    r.close.whole (.mcpToolResult callId (serverToolResultContent output).2
      (serverToolResultContent output).1) []
  | _ => r

theorem readAll_append (more : List MessagesFrame) :
    r.readAll (frames ++ more) = (r.readAll frames).bind (·.readAll more) := by
  unfold readAll
  rw [List.foldlM_append]
  rfl

theorem readAll_concat {frame : MessagesFrame} (h : r.readAll frames = some r') :
    r.readAll (frames ++ [frame]) = r'.read frame := by
  rw [readAll_append, h]
  show (r'.read frame).bind some = _
  exact Option.bind_fun_some _

theorem close_eq_self (h : r.opened = none) : r.close = r := by
  unfold close blocks
  rw [h]
  show MessagesReader.mk r.phase (r.closed ++ []) none = r
  rw [List.append_nil, ← h]

theorem readAll_deltas (hphase : r.phase = .streaming) (deltas : List BlockDelta)
    (hopened : r.opened = some opened) (hfits : ∀ d ∈ deltas, d.fits opened.block = true) :
    r.readAll (deltas.map (.contentBlockDelta r.closed.length))
      = some { r with opened := some { opened with deltas := opened.deltas ++ deltas } } := by
  induction deltas generalizing r opened with
  | nil =>
    rw [List.append_nil, ← hopened]
    rfl
  | cons delta deltas ih =>
    have hread : r.read (.contentBlockDelta r.closed.length delta)
        = some { r with opened := some { opened with deltas := opened.deltas ++ [delta] } } := by
      unfold read
      rw [hopened]
      exact if_pos ⟨hphase, rfl, hfits delta (by simp)⟩
    show (r.read _).bind (fun r' => r'.readAll _) = _
    rw [hread, Option.bind_some]
    have hrest := @ih { r with opened := some { opened with deltas := opened.deltas ++ [delta] } }
      { opened with deltas := opened.deltas ++ [delta] } hphase rfl
      (fun d hd => hfits d (List.mem_cons_of_mem _ hd))
    rw [List.append_assoc] at hrest
    exact hrest

theorem ensureText_opened (r : MessagesReader) :
    ∃ opened, r.ensureText.opened = some opened ∧ opened.block = .text := by
  unfold ensureText
  split
  · rename_i hany
    cases hr : r.opened with
    | none =>
      rw [hr] at hany
      exact absurd hany Bool.false_ne_true
    | some opened =>
      rw [hr] at hany
      refine ⟨opened, rfl, ?_⟩
      obtain ⟨block, deltas⟩ := opened
      have hkind : block.kind = some .text := of_decide_eq_true hany
      cases block with
      | text => rfl
      | _ => exact absurd hkind (by simp [ContentBlock.kind])
  · exact ⟨_, rfl, rfl⟩

end MessagesReader

/-- A block of tool use takes fragments. -/
theorem ReadBlock.fits_of_call {b : ReadBlock} {c : StreamedCall} (h : b.call = some c)
    (arguments : String) : (BlockDelta.inputJson arguments).fits b.block = true := by
  unfold call at h
  split at h
  · rename_i hblock
    rw [hblock]
    rfl
  · exact absurd h (by simp)

/-! ## The encoder and its client in step -/

/-- **The client is where the encoder takes it to be.** -/
structure Synced (e : MessagesStreamEncoder) (r : MessagesReader) : Prop where
  phase : r.phase = if e.started then .streaming else .fresh
  index : e.blockIndex = r.closed.length
  opened : e.blockOpen = r.opened.isSome
  kind : r.opened.map (·.block.kind) = e.blockKind.map some
  /-- Reasoning is held back only while no block is open. -/
  held : e.pendingReasoning.isSome = true → r.opened = none

/-- The frames of a part so far, read from some state. -/
structure Live (r₀ : MessagesReader) (out : MessagesEncoding) (r : MessagesReader) : Prop where
  reads : r₀.readAll out.frames = some r
  synced : Synced out.encoder r
  started : out.encoder.started = true

namespace Live

variable {r₀ r : MessagesReader} {out : MessagesEncoding} {e : MessagesStreamEncoder}
  {block : ContentBlock} {delta : BlockDelta} {opened : ReadBlock}

theorem phase (h : Live r₀ out r) : r.phase = .streaming := by
  rw [h.synced.phase, h.started]
  rfl

/-- The first event of a stream. -/
theorem ensureStarted (h : Synced e r) :
    Live r (MessagesEncoding.ensureStarted { encoder := e }) r.start := by
  unfold MessagesEncoding.ensureStarted
  split
  · rename_i hstarted
    have hphase := h.phase
    rw [hstarted] at hphase
    have hstart : r.start = r := by
      show MessagesReader.mk _ _ _ = r
      rw [← show r.phase = .streaming from hphase]
    rw [hstart]
    exact ⟨rfl, h, hstarted⟩
  · rename_i hstarted
    have hphase := h.phase
    rw [if_neg hstarted] at hphase
    refine ⟨?_, ⟨rfl, h.index, h.opened, h.kind, h.held⟩, rfl⟩
    show (r.read _).bind some = _
    rw [Option.bind_fun_some]
    exact if_pos hphase

section

variable (h : Live r₀ out r)

include h

/-- What the encoder holds back for the end does not matter here. -/
theorem of_encoder {out' : MessagesEncoding} (hframes : out'.frames = out.frames)
    (hencoder : { out'.encoder with
      pendingSources := out.encoder.pendingSources
      pendingUsage := out.encoder.pendingUsage } = out.encoder) : Live r₀ out' r := by
  obtain ⟨encoder, frames⟩ := out'
  obtain rfl := hframes
  have hsynced := h.synced
  have hstarted := h.started
  rw [← hencoder] at hsynced hstarted
  exact ⟨h.reads, ⟨hsynced.phase, hsynced.index, hsynced.opened, hsynced.kind, hsynced.held⟩,
    hstarted⟩

theorem dropReasoning : Live r₀ out.dropReasoning r :=
  ⟨h.reads, ⟨h.synced.phase, h.synced.index, h.synced.opened, h.synced.kind,
    fun hheld => absurd hheld Bool.false_ne_true⟩, h.started⟩

theorem closeBlock : Live r₀ out.closeBlock r.close := by
  unfold MessagesEncoding.closeBlock
  have hopened := h.synced.opened
  cases hr : r.opened with
  | none =>
    rw [hr] at hopened
    rw [if_neg (by rw [hopened]; decide), MessagesReader.close_eq_self hr]
    exact h
  | some opened =>
    have hopen : out.encoder.blockOpen = true := by
      rw [hopened, hr]
      rfl
    have hblocks : r.blocks = r.closed ++ [opened] := by
      unfold MessagesReader.blocks
      rw [hr]
      rfl
    rw [if_pos hopen]
    refine ⟨?_, ⟨h.synced.phase, ?_, rfl, rfl, fun _ => rfl⟩, h.started⟩
    · show r₀.readAll (out.frames ++ [_]) = _
      rw [MessagesReader.readAll_concat h.reads]
      unfold MessagesReader.read MessagesReader.close
      rw [hr, hblocks]
      exact if_pos ⟨h.phase, h.synced.index⟩
    · show out.encoder.blockIndex + 1 = r.blocks.length
      rw [hblocks, List.length_append, h.synced.index]
      rfl

theorem pushBlock (hopened : r.opened = none) (deltas : List BlockDelta)
    (hfits : ∀ d ∈ deltas, d.fits block = true) :
    Live r₀ (out.pushBlock block deltas) (r.whole block deltas) := by
  have hindex := h.synced.index
  refine ⟨?_, ⟨h.synced.phase, ?_, h.synced.opened, h.synced.kind, h.synced.held⟩, h.started⟩
  · -- The events that open it, fill it and close it.
    show r₀.readAll (out.frames ++ _ ++ [_]) = _
    rw [MessagesReader.readAll_append, MessagesReader.readAll_append, h.reads]
    show (((r.read _).bind fun r => r.readAll _).bind fun r => r.readAll _) = _
    have hstart : r.read (.contentBlockStart out.encoder.blockIndex block)
        = some (r.openBlock block) := if_pos ⟨h.phase, by rw [hopened]; rfl, hindex⟩
    rw [hstart, hindex]
    show ((r.openBlock block).readAll (deltas.map (.contentBlockDelta r.closed.length))).bind _ = _
    have hfilled : (r.openBlock block).readAll
        (deltas.map (.contentBlockDelta r.closed.length)) = some { r with
          opened := some { block, deltas } } :=
      @MessagesReader.readAll_deltas (r.openBlock block) _ h.phase deltas rfl hfits
    rw [hfilled]
    show (MessagesReader.read _ _).bind some = _
    rw [Option.bind_fun_some]
    refine (if_pos ⟨h.phase, rfl⟩).trans ?_
    show some (MessagesReader.mk _ _ none) = some (MessagesReader.mk _ _ r.opened)
    rw [hopened]
  · show out.encoder.blockIndex + 1 = (r.closed ++ [_]).length
    rw [List.length_append, hindex]
    rfl

/-- A new block. -/
theorem openBlock {kind : EncoderBlockKind} (hopened : r.opened = none)
    (hkind : block.kind = some kind) (hheld : out.encoder.pendingReasoning = none) :
    Live r₀ (MessagesEncoding.push { out with
        encoder := { out.encoder with blockKind := some kind, blockOpen := true } }
      (.contentBlockStart out.encoder.blockIndex block)) (r.openBlock block) := by
  refine ⟨?_, ⟨h.synced.phase, h.synced.index, rfl, congrArg some hkind, ?_⟩, h.started⟩
  · show r₀.readAll (out.frames ++ [_]) = _
    rw [MessagesReader.readAll_concat h.reads]
    exact if_pos ⟨h.phase, by rw [hopened]; rfl, h.synced.index⟩
  · intro hsome
    have hsome : out.encoder.pendingReasoning.isSome = true := hsome
    rw [hheld] at hsome
    exact absurd hsome Bool.false_ne_true

theorem add (hopened : r.opened = some opened) (hfits : delta.fits opened.block = true) :
    Live r₀ (out.push (.contentBlockDelta out.encoder.blockIndex delta)) (r.add delta) := by
  have hadd : (r.add delta).opened = some { opened with deltas := opened.deltas ++ [delta] } := by
    unfold MessagesReader.add
    rw [hopened]
    rfl
  have hkind := h.synced.kind
  refine ⟨?_, ⟨h.synced.phase, h.synced.index, ?_, ?_, ?_⟩, h.started⟩
  · show r₀.readAll (out.frames ++ [_]) = _
    rw [MessagesReader.readAll_concat h.reads]
    unfold MessagesReader.read MessagesReader.add
    rw [hopened]
    exact if_pos ⟨h.phase, h.synced.index, hfits⟩
  · show out.encoder.blockOpen = _
    rw [hadd, h.synced.opened, hopened]
    rfl
  · rw [hadd]
    rw [hopened] at hkind
    exact hkind
  · intro hheld
    have hnone := h.synced.held hheld
    rw [hopened] at hnone
    exact absurd hnone (by simp)

theorem ensureBlockOpen (hopened : r.opened = none) (kind : EncoderBlockKind) :
    out.ensureBlockOpen kind = ({ out with
      encoder := { out.encoder with blockKind := some kind, blockOpen := true } }, true) := by
  have hopen : out.encoder.blockOpen = false := by
    rw [h.synced.opened, hopened]
    rfl
  unfold MessagesEncoding.ensureBlockOpen
  rw [hopen]
  refine if_neg ?_
  rw [Bool.false_and, if_neg Bool.false_ne_true, hopen]
  exact Bool.false_ne_true

/-- The block that texts are added to. -/
theorem ensureText (hheld : out.encoder.pendingReasoning = none) :
    Live r₀ (if (out.ensureBlockOpen .text).2 then (out.ensureBlockOpen .text).1.push
        (.contentBlockStart (out.ensureBlockOpen .text).1.encoder.blockIndex .text)
      else (out.ensureBlockOpen .text).1) r.ensureText := by
  unfold MessagesReader.ensureText
  cases hr : r.opened with
  | none =>
    rw [h.ensureBlockOpen hr, MessagesReader.close_eq_self hr]
    exact h.openBlock hr rfl hheld
  | some opened =>
    have hopen : out.encoder.blockOpen = true := by
      rw [h.synced.opened, hr]
      rfl
    have hkind := h.synced.kind
    rw [hr] at hkind
    cases hk : out.encoder.blockKind with
    | none =>
      rw [hk] at hkind
      exact absurd hkind (by simp)
    | some kind =>
      have hopened : opened.block.kind = some kind := by
        rw [hk] at hkind
        exact Option.some.inj hkind
      cases kind with
      | text =>
        -- The block is open already.
        have hsame : out.ensureBlockOpen .text = (out, false) := by
          unfold MessagesEncoding.ensureBlockOpen
          rw [hopen, hk]
          exact if_pos hopen
        rw [hsame]
        have hany : (some opened).any (·.block.kind = some EncoderBlockKind.text) = true :=
          decide_eq_true hopened
        rw [hany]
        exact h
      | toolUse =>
        -- A block of tool use is closed first.
        have hclosed : out.ensureBlockOpen .text = out.closeBlock.ensureBlockOpen .text := by
          have hopen' : out.closeBlock.encoder.blockOpen = false := by
            rw [h.closeBlock.synced.opened]
            rfl
          unfold MessagesEncoding.ensureBlockOpen
          rw [hopen', hopen, hk]
          rfl
        have hheld' : out.closeBlock.encoder.pendingReasoning = none := by
          unfold MessagesEncoding.closeBlock
          rw [if_pos hopen]
          exact hheld
        rw [hclosed, h.closeBlock.ensureBlockOpen rfl]
        have hany : (some opened).any (·.block.kind = some EncoderBlockKind.text) = false :=
          decide_eq_false (by rw [hopened]; decide)
        rw [hany]
        exact h.closeBlock.openBlock rfl rfl hheld'

end

end Live

def Stray (r : MessagesReader) : StreamPart → Prop
  | .toolCallDelta _ name arguments _ =>
    givenName name = none ∧ arguments ≠ "" ∧ r.opened.bind ReadBlock.call = none
  | _ => False

namespace Live

variable {r₀ r : MessagesReader} {out : MessagesEncoding} {part : StreamPart}

theorem closeBlock_pendingReasoning :
    out.closeBlock.encoder.pendingReasoning = out.encoder.pendingReasoning := by
  unfold MessagesEncoding.closeBlock
  split <;> rfl

section

variable (h : Live r₀ out r)

include h

theorem beginReasoningBuffer : Live r₀ out.beginReasoningBuffer r.close :=
  have hclose := h.closeBlock
  ⟨hclose.reads, ⟨hclose.synced.phase, hclose.synced.index, hclose.synced.opened,
    hclose.synced.kind, fun _ => rfl⟩, hclose.started⟩

theorem pushReasoningDelta (text : String) :
    Live r₀ (out.pushReasoningDelta text) r.close := by
  have hbuffer : ∀ {out' : MessagesEncoding}, Live r₀ out' r.close →
      Live r₀ { out' with encoder := { out'.encoder with
        pendingReasoning := out'.encoder.pendingReasoning.map (· ++ text) } } r.close :=
    fun h => ⟨h.reads, ⟨h.synced.phase, h.synced.index, h.synced.opened, h.synced.kind,
      fun _ => rfl⟩, h.started⟩
  unfold MessagesEncoding.pushReasoningDelta
  cases hheld : out.encoder.pendingReasoning with
  | none => exact hbuffer h.beginReasoningBuffer
  | some buffer =>
    have hopened : r.opened = none := h.synced.held (by rw [hheld]; rfl)
    have hclosed : Live r₀ out r.close := by
      rw [MessagesReader.close_eq_self hopened]
      exact h
    have hbuffered := hbuffer hclosed
    simpa [hheld] using hbuffered

theorem flushReasoningBuffer (signature : Option String) :
    Live r₀ (out.flushReasoningBuffer signature)
        (r.endReasoning out.encoder.pendingReasoning signature) := by
  unfold MessagesEncoding.flushReasoningBuffer MessagesReader.endReasoning
  cases hheld : out.encoder.pendingReasoning with
  | none => exact h.dropReasoning
  | some text =>
    cases signature with
    | none => exact h.dropReasoning
    | some signature =>
      have hopened : r.opened = none := h.synced.held (by rw [hheld]; rfl)
      refine h.dropReasoning.pushBlock hopened _ fun d hd => ?_
      rcases List.mem_append.mp hd with hd | hd
      · split at hd
        · exact absurd hd List.not_mem_nil
        · rw [List.mem_singleton.mp hd]
          rfl
      · rw [List.mem_singleton.mp hd]
        rfl

theorem toolBlock (hheld : out.encoder.pendingReasoning = none)
    (id name : String) : Live r₀ (MessagesEncoding.push (out.closeBlock.ensureBlockOpen .toolUse).1
      (.contentBlockStart (out.closeBlock.ensureBlockOpen .toolUse).1.encoder.blockIndex
        (.toolUse id name))) (r.close.openBlock (.toolUse id name)) := by
  rw [h.closeBlock.ensureBlockOpen rfl]
  exact h.closeBlock.openBlock rfl rfl (by rw [closeBlock_pendingReasoning]; exact hheld)

/-- **A fragment without its block cannot be read.** -/
theorem unread (hstray : Stray r part) :
    r₀.readAll (out.encodePart part).frames = none := by
  unfold Stray at hstray
  split at hstray
  · rename_i id name arguments metadata
    obtain ⟨hname, harguments, hcall⟩ := hstray
    show r₀.readAll (out.toolCallDelta id name arguments).frames = none
    unfold MessagesEncoding.toolCallDelta
    rw [hname]
    rw [if_neg harguments]
    show r₀.readAll (out.frames ++ [_]) = none
    rw [MessagesReader.readAll_concat h.reads]
    unfold MessagesReader.read
    cases hr : r.opened with
    | none => rfl
    | some opened =>
      -- The open block is one of text.
      have hkind := h.synced.kind
      rw [hr] at hcall hkind
      have hkind_ne : ∀ {k : Option EncoderBlockKind}, some none = k.map some → False := by
        rintro (_ | kind) hk
        · exact absurd hk (by simp)
        · exact absurd (Option.some.inj hk) (by simp)
      refine if_neg ?_
      rintro ⟨-, -, hfits⟩
      obtain ⟨block, deltas⟩ := opened
      cases block with
      | text => exact absurd hfits Bool.false_ne_true
      | toolUse id name => exact absurd hcall (by simp [ReadBlock.call])
      | thinking => exact absurd hfits Bool.false_ne_true
      | serverToolUse id name => exact hkind_ne hkind
      | mcpToolUse id name serverName => exact hkind_ne hkind
      | mcpToolResult id isError content => exact absurd hfits Bool.false_ne_true
      | webSearchToolResult id content => exact absurd hfits Bool.false_ne_true
  · exact absurd hstray not_false

/-- **What the client has read after a part.** -/
theorem encodePart (hend : part.isTerminal = false) (hstray : ¬ Stray r part) :
    Live r₀ (out.encodePart part) (r.after out.encoder.pendingReasoning part) := by
  have hdrop := h.dropReasoning
  cases part with
  | textDelta text =>
    have hensure := hdrop.ensureText rfl
    obtain ⟨opened, hopened, hblock⟩ := r.ensureText_opened
    exact hensure.add hopened (by rw [hblock]; rfl)
  | toolCallDelta id name arguments metadata =>
    show Live r₀ (out.toolCallDelta id name arguments)
      ((r.ensureTool id (givenName name)).addInput arguments)
    unfold MessagesEncoding.toolCallDelta MessagesReader.addInput
    cases hname : givenName name with
    | some name =>
      have hblock := hdrop.toolBlock rfl id name
      dsimp only [MessagesReader.ensureTool]
      split
      · exact hblock
      · have hopened : (r.close.openBlock (.toolUse id name)).opened
            = some { block := .toolUse id name } := rfl
        exact hblock.add hopened rfl
    | none =>
      dsimp only [MessagesReader.ensureTool]
      split
      · exact hdrop
      · rename_i harguments
        -- The fragment is not stray, so a block of tool use is open.
        cases hcall : r.opened.bind ReadBlock.call with
        | none => exact absurd ⟨hname, harguments, hcall⟩ hstray
        | some call =>
          obtain ⟨opened, hopened, hblock⟩ := Option.bind_eq_some_iff.mp hcall
          exact hdrop.add hopened (ReadBlock.fits_of_call hblock arguments)
  | serverToolCall id name arguments serverName dynamic =>
    refine h.closeBlock.pushBlock rfl _ fun d hd => ?_
    split at hd
    · exact absurd hd List.not_mem_nil
    · rw [List.mem_singleton.mp hd]
      unfold MessagesEncoding.serverToolBlock
      split
      · split <;> rfl
      · rfl
  | serverToolResult callId toolName output dynamic =>
    exact h.closeBlock.pushBlock rfl [] (fun d hd => absurd hd List.not_mem_nil)
  | usage usage => exact h.of_encoder rfl rfl
  | finish reason => exact absurd hend Bool.false_ne_true.symm
  | responseCompleted completion usage => exact absurd hend Bool.false_ne_true.symm
  | other part =>
    cases part with
    | textStart id => exact hdrop.closeBlock.openBlock rfl rfl closeBlock_pendingReasoning
    | textEnd id => exact hdrop.closeBlock
    | reasoningStart id protocol => exact h.beginReasoningBuffer
    | reasoningDelta text kind => exact h.pushReasoningDelta text
    | reasoningEnd id signature native => exact h.flushReasoningBuffer signature
    | file mediaType data => exact h
    | source source => exact hdrop.of_encoder rfl rfl
    | responseStarted id protocol => exact h

/-- The citations are emitted whole, before the end. -/
theorem flushPendingSources :
    Live r₀ out.flushPendingSources (r.cite out.encoder.pendingSources) := by
  unfold MessagesEncoding.flushPendingSources MessagesReader.cite
  split
  · exact h
  · have htaken : Live r₀ { out with encoder := { out.encoder with pendingSources := [] } } r :=
      h.of_encoder rfl rfl
    exact (htaken.closeBlock.pushBlock rfl [] fun d hd =>
      absurd hd List.not_mem_nil).pushBlock rfl []
      fun d hd => absurd hd List.not_mem_nil

/-- **The end of a stream.** -/
theorem emitTerminal (stopReason : String) (usage : Option Usage) :
    r₀.readAll (out.emitTerminal stopReason usage).frames
      = some { (r.cite out.encoder.pendingSources).close with phase := .done } := by
  have hclosed := h.dropReasoning.flushPendingSources.closeBlock
  have hdelta : r₀.readAll (out.dropReasoning.flushPendingSources.closeBlock.frames
      ++ [.messageDelta stopReason (renderUsage (usage.getD {}))])
        = some { (r.cite out.encoder.pendingSources).close with phase := .ending } := by
    rw [MessagesReader.readAll_concat hclosed.reads]
    exact if_pos ⟨hclosed.phase, rfl⟩
  show r₀.readAll ((_ ++ [_]) ++ [_]) = _
  rw [MessagesReader.readAll_concat hdelta]
  rfl

end

end Live

end BitRouter.Gateway
