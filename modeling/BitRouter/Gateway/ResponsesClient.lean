import BitRouter.Gateway.CallTracking
import BitRouter.Gateway.ResponsesWire

/-!
# The Responses encoder and its client in step

A client that checks every event: its sequence number, the index of each item,
that a delta names the open item and a part of it that was opened, and that
each event that ends something repeats what was sent of it. The client reads
every stream of the encoder (`Live.encodePart`), which has at most one of a
reasoning item, a message and a call open (`Shows`).
-/

namespace BitRouter.Gateway

open Ai
open Registry (Value)

/-! ## A reader of the events -/

structure OpenItem where
  item : OutputItem
  content : Option String := none
  summary : Option String := none
  arguments : String := ""

inductive ResponsesPhase
  | fresh
  | created
  | streaming
  | done
  deriving DecidableEq, Repr

structure ResponsesReader where
  seq : ℕ := 0
  phase : ResponsesPhase := .fresh
  closed : List OutputItem := []
  opened : Option OpenItem := none

namespace OutputItem

def itemId : OutputItem → Option String
  | message id _ _ => some id
  | reasoning id _ _ _ => some id
  | native item => (item.get "id").bind Value.asStr
  | clientCall id _ _ => some id
  | mcpCall id _ _ _ _ _ => some id

/-- Whether an item has texts of a kind. -/
def hasLane : OutputItem → TextLane → Bool
  | message _ _ _, .output => true
  | reasoning _ _ _ _, .reasoning => true
  | reasoning _ _ _ _, .summary => true
  | _, _ => false

/-- The call of an item, for the client to run. -/
def call : OutputItem → Option StreamedCall
  | clientCall _ _ call =>
    some { id := call.callId, name := call.name, arguments := call.arguments }
  | _ => none

end OutputItem

namespace OpenItem

/-- What was sent of a text. -/
def lane (opened : OpenItem) : TextLane → Option String
  | .summary => opened.summary
  | _ => opened.content

def setLane (opened : OpenItem) (lane : TextLane) (text : String) : OpenItem :=
  match lane with
  | .summary => { opened with summary := some text }
  | _ => { opened with content := some text }

/-- **Whether the last event of an item repeats what was sent.** -/
def repeats (opened : OpenItem) (done : OutputItem) : Bool :=
  match opened.item, done with
  | .message id _ _, .message id' _ content => id' = id && content = opened.content.toList
  | .reasoning id _ _ _, .reasoning id' _ summary content =>
    id' = id && summary = opened.summary.toList && content = opened.content.toList
  | .reasoning id _ _ _, .native item => (item.get "id").bind Value.asStr = some id
    && visibleText ⟨item⟩ = opened.summary.getD "" ++ opened.content.getD ""
  | .clientCall id _ call, .clientCall id' _ call' => id' = id && call'.custom = call.custom
    && call'.callId = call.callId && call'.name = call.name && call'.arguments = opened.arguments
  | .mcpCall id name arguments output label error,
    .mcpCall id' name' arguments' output' label' error' => id' = id && name' = name
      && arguments' = arguments && output' = output && label' = label && error' = error
  | _, _ => false

/-- Whether an item is a call of a kind. -/
def isCall (opened : OpenItem) (custom : Bool) : Bool :=
  match opened.item with
  | .clientCall _ _ call => call.custom = custom
  | _ => false

def call (opened : OpenItem) : Option StreamedCall :=
  opened.item.call.map fun call => { call with arguments := opened.arguments }

end OpenItem

namespace ResponsesReader

/-- An event that names the open item. -/
def within (r : ResponsesReader) (itemId : String) (outputIndex : ℕ)
    (f : OpenItem → Option OpenItem) : Option ResponsesReader :=
  match r.opened with
  | none => none
  | some opened =>
    if r.phase = .streaming ∧ opened.item.itemId = some itemId ∧ outputIndex = r.closed.length then
      (f opened).map fun opened => { r with opened := some opened }
    else none

/-- What an event does, if the rules of the wire allow it here. -/
def receive (r : ResponsesReader) : ResponsesEvent → Option ResponsesReader
  | .created _ => if r.phase = .fresh then some { r with phase := .created } else none
  | .inProgress _ => if r.phase = .created then some { r with phase := .streaming } else none
  | .itemAdded outputIndex item =>
    if r.phase = .streaming ∧ r.opened.isNone ∧ outputIndex = r.closed.length then
      some { r with opened := some { item } }
    else none
  | .partAdded lane itemId outputIndex => r.within itemId outputIndex fun opened =>
    if opened.item.hasLane lane ∧ opened.lane lane = none then some (opened.setLane lane "")
    else none
  | .textDelta lane itemId outputIndex delta => r.within itemId outputIndex fun opened =>
    (opened.lane lane).map fun text => opened.setLane lane (text ++ delta)
  | .textDone lane itemId outputIndex text => r.within itemId outputIndex fun opened =>
    if opened.lane lane = some text then some opened else none
  | .partDone lane itemId outputIndex text => r.within itemId outputIndex fun opened =>
    if opened.lane lane = some text then some opened else none
  | .annotationAdded itemId outputIndex _ _ => r.within itemId outputIndex fun opened =>
    if opened.item.hasLane .output ∧ opened.content.isSome then some opened else none
  | .argumentsDelta custom itemId outputIndex delta => r.within itemId outputIndex fun opened =>
    if opened.isCall custom then some { opened with arguments := opened.arguments ++ delta }
    else none
  | .argumentsDone custom itemId outputIndex arguments => r.within itemId outputIndex fun opened =>
    if opened.isCall custom ∧ opened.arguments = arguments then some opened else none
  | .itemDone outputIndex item =>
    match r.opened with
    | none => none
    | some opened =>
      if r.phase = .streaming ∧ outputIndex = r.closed.length ∧ opened.repeats item then
        some { r with closed := r.closed ++ [item], opened := none }
      else none
  | .terminal _ =>
    if r.phase = .streaming ∧ r.opened.isNone then some { r with phase := .done } else none

/-- **Read one frame**, which has the next sequence number. -/
def read (r : ResponsesReader) (frame : ResponsesFrame) : Option ResponsesReader :=
  if frame.sequenceNumber = r.seq then
    (r.receive frame.event).map fun r => { r with seq := r.seq + 1 }
  else none

def readAll (r : ResponsesReader) (frames : List ResponsesFrame) : Option ResponsesReader :=
  frames.foldlM read r

/-- The calls a client was told. -/
def track (r : ResponsesReader) : CallTrack where
  done := r.closed.filterMap OutputItem.call
  running := r.opened.bind OpenItem.call

theorem readAll_append {r : ResponsesReader} {frames : List ResponsesFrame}
    (more : List ResponsesFrame) :
    r.readAll (frames ++ more) = (r.readAll frames).bind (·.readAll more) := by
  unfold readAll
  rw [List.foldlM_append]
  rfl

section Kept

variable {r r' : ResponsesReader} {item : OutputItem}

theorem closed_of_within {id : String} {index : ℕ} {f : OpenItem → Option OpenItem}
    (h : r.within id index f = some r') : r'.closed = r.closed := by
  unfold within at h
  cases hopened : r.opened with
  | none => rw [hopened] at h; exact absurd h (by simp)
  | some opened =>
    rw [hopened] at h
    dsimp only at h
    split at h
    · obtain ⟨_, -, rfl⟩ := Option.map_eq_some_iff.mp h
      rfl
    · exact absurd h (by simp)

theorem of_if {c : Prop} [Decidable c] {r₁ : ResponsesReader}
    (h : (if c then some r₁ else none) = some r') : r₁ = r' := by
  split at h
  · exact Option.some.inj h
  · exact absurd h (by simp)

/-- An item that is done stays done. -/
theorem closed_of_read {frame : ResponsesFrame} (h : r.read frame = some r')
    (hitem : item ∈ r.closed) : item ∈ r'.closed := by
  unfold read at h
  split at h
  · obtain ⟨r₁, hreceive, rfl⟩ := Option.map_eq_some_iff.mp h
    show item ∈ r₁.closed
    cases hevent : frame.event with
    | created response => rw [hevent] at hreceive; exact of_if hreceive ▸ hitem
    | inProgress response => rw [hevent] at hreceive; exact of_if hreceive ▸ hitem
    | itemAdded index item => rw [hevent] at hreceive; exact of_if hreceive ▸ hitem
    | terminal response => rw [hevent] at hreceive; exact of_if hreceive ▸ hitem
    | itemDone index item =>
      rw [hevent] at hreceive
      unfold receive at hreceive
      cases hopened : r.opened with
      | none => rw [hopened] at hreceive; exact absurd hreceive (by simp)
      | some opened =>
        rw [hopened] at hreceive
        exact of_if hreceive ▸ List.mem_append_left _ hitem
    | _ => rw [hevent] at hreceive; exact closed_of_within hreceive ▸ hitem
  · exact absurd h (by simp)

end Kept

end ResponsesReader

/-! ## The encoder and its client in step -/

namespace ReasoningItemState

/-- What a client has of an open reasoning item. -/
def shown (state : ReasoningItemState) : OpenItem where
  item := .reasoning state.itemId "in_progress" [] []
  content := if state.textOpened then some state.reasoningText else none
  summary := if state.summaryOpened then some state.summaryText else none

/-- A text that was not opened is empty. -/
structure Sound (state : ReasoningItemState) : Prop where
  text : state.textOpened = false → state.reasoningText = ""
  summary : state.summaryOpened = false → state.summaryText = ""

end ReasoningItemState

def ItemState.shown (state : ItemState) : OpenItem where
  item := .message state.itemId "in_progress" []
  content := some state.accumulatedText

def ToolItemState.shown (state : ToolItemState) : OpenItem where
  item := .clientCall state.itemId "in_progress"
    (clientCallItem state.callId state.toolName "" state.providerMetadata)
  arguments := state.accumulatedArgs

/-- **At most one item is open**, at the next index, and the client has it. -/
inductive Shows (index : ℕ) : Option ReasoningItemState → Option ItemState → Option ToolItemState →
    Option OpenItem → Prop
  | idle : Shows index none none none none
  | reasoning (state : ReasoningItemState) : state.outputIndex = index → state.Sound →
      Shows index (some state) none none (some state.shown)
  | text (state : ItemState) : state.outputIndex = index →
      Shows index none (some state) none (some state.shown)
  | tool (state : ToolItemState) : state.outputIndex = index →
      Shows index none none (some state) (some state.shown)

/-- **The client is where the encoder takes it to be.** -/
structure ResponsesSynced (e : ResponsesStreamEncoder) (closed : List OutputItem)
    (opened : Option OpenItem) : Prop where
  index : e.nextOutputIndex = closed.length + opened.toList.length
  open_ : Shows closed.length e.reasoningItem e.textItem e.toolItem opened
  native : e.reasoningNative = none

/-- The client of a stream that has begun. -/
def reading (e : ResponsesStreamEncoder) (closed : List OutputItem) (opened : Option OpenItem) :
    ResponsesReader where
  seq := e.seq
  phase := .streaming
  closed := closed
  opened := opened

/-- The frames so far, read from some state. -/
def ResponsesReads (r₀ : ResponsesReader) (out : ResponsesEncoding) (closed : List OutputItem)
    (opened : Option OpenItem) : Prop :=
  r₀.readAll out.frames = some (reading out.encoder closed opened)

namespace ResponsesReads

variable {r₀ : ResponsesReader} {out : ResponsesEncoding} {closed closed' : List OutputItem}
  {opened opened' : Option OpenItem} {event : ResponsesEvent} {o o' : OpenItem} {item : OutputItem}

/-- **An event that the client accepts.** -/
theorem ev (h : ResponsesReads r₀ out closed opened)
    (hreceive : (reading out.encoder closed opened).receive event
      = some (reading out.encoder closed' opened')) :
    ResponsesReads r₀ (out.ev event) closed' opened' := by
  show r₀.readAll (out.frames ++ [_]) = _
  rw [ResponsesReader.readAll_append, show r₀.readAll out.frames = _ from h]
  show ((reading out.encoder closed opened).read _).bind some = _
  rw [Option.bind_fun_some]
  refine (if_pos rfl).trans ?_
  rw [hreceive]
  rfl

theorem within {id : String} (h : ResponsesReads r₀ out closed (some o))
    (hid : o.item.itemId = some id) (f : OpenItem → Option OpenItem) (hf : f o = some o')
    (hevent : ∀ r : ResponsesReader, r.receive event = r.within id closed.length f) :
    ResponsesReads r₀ (out.ev event) closed (some o') := by
  refine h.ev ?_
  rw [hevent]
  refine (if_pos ⟨rfl, hid, rfl⟩).trans ?_
  rw [hf]
  rfl

theorem addItem (h : ResponsesReads r₀ out closed none)
    (hindex : out.encoder.nextOutputIndex = closed.length) (item : OutputItem) :
    ResponsesReads r₀ (out.addItem item) closed (some { item }) :=
  have hnext : ResponsesReads r₀ { out with encoder := { out.encoder with
      nextOutputIndex := out.encoder.nextOutputIndex + 1 } } closed none := h
  hnext.ev (if_pos ⟨rfl, rfl, hindex⟩)

theorem partAdded {id : String} (lane : TextLane) (h : ResponsesReads r₀ out closed (some o))
    (hid : o.item.itemId = some id) (hlane : o.item.hasLane lane = true)
    (hnone : o.lane lane = none) :
    ResponsesReads r₀ (out.ev (.partAdded lane id closed.length)) closed
      (some (o.setLane lane "")) :=
  h.within hid _ (if_pos ⟨hlane, hnone⟩) fun _ => rfl

theorem textDelta {id text : String} (lane : TextLane) (h : ResponsesReads r₀ out closed (some o))
    (hid : o.item.itemId = some id) (hlane : o.lane lane = some text) (delta : String) :
    ResponsesReads r₀ (out.ev (.textDelta lane id closed.length delta)) closed
      (some (o.setLane lane (text ++ delta))) :=
  h.within hid _ (by rw [hlane]; rfl) fun _ => rfl

theorem finishLane {id text : String} (lane : TextLane) (h : ResponsesReads r₀ out closed (some o))
    (hid : o.item.itemId = some id) (hlane : o.lane lane = some text) :
    ResponsesReads r₀ (out.finishLane lane id closed.length text) closed (some o) :=
  (h.within hid _ (if_pos hlane) fun _ => rfl).within hid _ (if_pos hlane) fun _ => rfl

/-- A text is ended if it was opened. -/
theorem finishLaneIf {id text : String} (lane : TextLane) (opens : Bool)
    (h : ResponsesReads r₀ out closed (some o)) (hid : o.item.itemId = some id)
    (hlane : o.lane lane = if opens then some text else none) :
    ResponsesReads r₀ (if opens then out.finishLane lane id closed.length text else out) closed
      (some o) := by
  cases opens with
  | true => exact h.finishLane lane hid hlane
  | false => exact h

theorem finishLanes {state : ReasoningItemState} (h : ResponsesReads r₀ out closed (some o))
    (hstate : o = state.shown) (hindex : state.outputIndex = closed.length) :
    ResponsesReads r₀ (out.finishLanes state) closed (some o) := by
  obtain rfl := hstate
  unfold ResponsesEncoding.finishLanes
  rw [hindex]
  exact (h.finishLaneIf .summary state.summaryOpened rfl rfl).finishLaneIf .reasoning
    state.textOpened rfl rfl

section

variable {id : String} (custom : Bool) (h : ResponsesReads r₀ out closed (some o))
  (hid : o.item.itemId = some id) (hcall : o.isCall custom = true)

include custom h hid hcall

theorem argumentsDelta (delta : String) :
    ResponsesReads r₀ (out.ev (.argumentsDelta custom id closed.length delta)) closed
      (some { o with arguments := o.arguments ++ delta }) :=
  h.within hid _ (if_pos hcall) fun _ => rfl

theorem argumentsDone :
    ResponsesReads r₀ (out.ev (.argumentsDone custom id closed.length o.arguments)) closed
      (some o) :=
  h.within hid _ (if_pos ⟨hcall, rfl⟩) fun _ => rfl

end

theorem annotationAdded {id : String} (index : ℕ) (added : Value)
    (h : ResponsesReads r₀ out closed (some o)) (hid : o.item.itemId = some id)
    (hlane : o.item.hasLane .output = true) (hcontent : o.content.isSome = true) :
    ResponsesReads r₀ (out.ev (.annotationAdded id closed.length index added)) closed
      (some o) :=
  h.within hid _ (if_pos ⟨hlane, hcontent⟩) fun _ => rfl

theorem finishItem (item : OutputItem) (h : ResponsesReads r₀ out closed (some o))
    (hrepeats : o.repeats item = true) :
    ResponsesReads r₀ (out.finishItem closed.length item) (closed ++ [item]) none :=
  have hdone : ResponsesReads r₀ (out.ev (.itemDone closed.length item)) (closed ++ [item]) none :=
    h.ev (if_pos ⟨rfl, rfl, hrepeats⟩)
  hdone

section

variable {state : ReasoningItemState} (h : ResponsesReads r₀ out closed (some state.shown))

include h

theorem pushLane (hsound : state.Sound) (lane : TextLane) (summary : Bool) (text : String)
    (hlane : lane = if summary then .summary else .reasoning) :
    ResponsesReads r₀ (ResponsesEncoding.ev
      (if (if summary then state.summaryOpened else state.textOpened) then out
        else out.ev (.partAdded lane state.itemId closed.length))
      (.textDelta lane state.itemId closed.length text)) closed
        (some (state.push summary text).shown) := by
  obtain ⟨itemId, index, summaryText, reasoningText, summaryOpened, textOpened⟩ := state
  obtain rfl := hlane
  cases summary with
  | true =>
    cases summaryOpened with
    | true => exact h.textDelta .summary rfl rfl text
    | false =>
      obtain rfl : summaryText = "" := hsound.summary rfl
      exact (h.partAdded .summary rfl rfl rfl).textDelta .summary rfl rfl text
  | false =>
    cases textOpened with
    | true => exact h.textDelta .reasoning rfl rfl text
    | false =>
      obtain rfl : reasoningText = "" := hsound.text rfl
      exact (h.partAdded .reasoning rfl rfl rfl).textDelta .reasoning rfl rfl text

/-- The last events of a reasoning item. -/
theorem closeReasoningItem
    (hstate : out.encoder.reasoningItem = some state) (hindex : state.outputIndex = closed.length)
    (hrepeats : state.shown.repeats (state.item out.encoder.reasoningNative) = true) :
    ResponsesReads r₀ out.closeReasoningItem
      (closed ++ [state.item out.encoder.reasoningNative]) none := by
  have hstart : ResponsesReads r₀ { out with encoder := { out.encoder with
      reasoningItem := none } } closed (some state.shown) := h
  have hlanes := hstart.finishLanes rfl hindex
  unfold ResponsesEncoding.closeReasoningItem
  rw [hstate]
  dsimp only
  rw [hindex]
  exact finishItem _ (by exact hlanes) hrepeats

end

end ResponsesReads

namespace ReasoningItemState

variable {state : ReasoningItemState}

theorem item_call (native : Option NativeReasoning) : (state.item native).call = none := by
  cases native <;> rfl

theorem push_outputIndex (state : ReasoningItemState) (summary : Bool) (text : String) :
    (state.push summary text).outputIndex = state.outputIndex := by
  cases summary <;> rfl

theorem Sound.push (h : state.Sound) (summary : Bool) (text : String) :
    (state.push summary text).Sound := by
  cases summary with
  | true => exact ⟨h.text, fun hopened => absurd hopened (by simp [ReasoningItemState.push])⟩
  | false => exact ⟨fun hopened => absurd hopened (by simp [ReasoningItemState.push]), h.summary⟩

theorem Sound.repeats (h : state.Sound) {native : Option NativeReasoning}
    {open_ : Option ReasoningItemState} (hnative : ∀ n ∈ native, ∃ state, open_ = some state
      ∧ (n.item.get "id").bind Value.asStr = some state.itemId
      ∧ visibleText n = state.summaryText ++ state.reasoningText) (hopen : open_ = some state) :
    state.shown.repeats (state.item native) = true := by
  obtain ⟨itemId, index, summary, content, summaryOpened, textOpened⟩ := state
  cases native with
  | none =>
    cases summaryOpened <;> cases textOpened <;>
      simp [OpenItem.repeats, ReasoningItemState.shown, ReasoningItemState.item]
  | some n =>
    obtain ⟨other, hother, hid, htext⟩ := hnative n rfl
    obtain rfl := Option.some.inj (hopen.symm.trans hother)
    have hsummary := h.summary
    have hcontent := h.text
    cases summaryOpened <;> cases textOpened <;>
      simp_all [OpenItem.repeats, ReasoningItemState.shown, ReasoningItemState.item]

end ReasoningItemState

/-- The frames of a part so far, and the state of the encoder. -/
structure ResponsesLive (r₀ : ResponsesReader) (out : ResponsesEncoding) (closed : List OutputItem)
    (opened : Option OpenItem) : Prop where
  reads : ResponsesReads r₀ out closed opened
  synced : ResponsesSynced out.encoder closed opened
  created : out.encoder.created = true

/-- The calls of some items and of the open one. -/
def itemTrack (closed : List OutputItem) (opened : Option OpenItem) : CallTrack where
  done := closed.filterMap OutputItem.call
  running := opened.bind OpenItem.call

/-! ### What is closed -/

namespace ResponsesEncoding

variable {out : ResponsesEncoding}

theorem finishLanes_encoder (state : ReasoningItemState) : ∃ seq,
    (out.finishLanes state).encoder = { out.encoder with seq } := by
  unfold finishLanes
  cases state.summaryOpened <;> cases state.textOpened <;> exact ⟨_, rfl⟩

theorem closeReasoningItem_of_some {out : ResponsesEncoding} {state : ReasoningItemState}
    (h : out.encoder.reasoningItem = some state) : ∃ seq completedItems,
    out.closeReasoningItem.encoder = { out.encoder with
      seq, reasoningItem := none, reasoningSource := none, reasoningNative := none
      completedItems } := by
  obtain ⟨seq, hseq⟩ := @finishLanes_encoder { out with
    encoder := { out.encoder with reasoningItem := none } } state
  refine ⟨seq + 1, out.encoder.completedItems ++ [state.item out.encoder.reasoningNative], ?_⟩
  unfold closeReasoningItem
  rw [h]
  unfold finishItem ev
  dsimp only
  rw [hseq]

theorem closeReasoningItem_of_none (h : out.encoder.reasoningItem = none) :
    out.closeReasoningItem = out := by
  unfold closeReasoningItem
  rw [h]

@[simp] theorem closeReasoningItem_reasoningItem :
    out.closeReasoningItem.encoder.reasoningItem = none := by
  cases h : out.encoder.reasoningItem with
  | none => rw [closeReasoningItem_of_none h, h]
  | some state =>
    obtain ⟨_, _, hencoder⟩ := closeReasoningItem_of_some h
    rw [hencoder]

@[simp] theorem closeReasoningItem_textItem :
    out.closeReasoningItem.encoder.textItem = out.encoder.textItem := by
  cases h : out.encoder.reasoningItem with
  | none => rw [closeReasoningItem_of_none h]
  | some state =>
    obtain ⟨_, _, hencoder⟩ := closeReasoningItem_of_some h
    rw [hencoder]

@[simp] theorem closeTextItem_textItem : out.closeTextItem.encoder.textItem = none := by
  unfold closeTextItem
  split
  · assumption
  · rfl

@[simp] theorem closeTextItem_reasoningItem :
    out.closeTextItem.encoder.reasoningItem = out.encoder.reasoningItem := by
  unfold closeTextItem
  split <;> rfl

@[simp] theorem closeToolItem_toolItem : out.closeToolItem.encoder.toolItem = none := by
  unfold closeToolItem
  split
  · assumption
  · rfl

@[simp] theorem closeToolItem_reasoningItem :
    out.closeToolItem.encoder.reasoningItem = out.encoder.reasoningItem := by
  unfold closeToolItem
  split <;> rfl

@[simp] theorem closeToolItem_textItem :
    out.closeToolItem.encoder.textItem = out.encoder.textItem := by
  unfold closeToolItem
  split <;> rfl

end ResponsesEncoding

theorem nativeReasoningItem_eq_ok {native : NativeReasoning} {item : Value}
    (h : nativeReasoningItem native = .ok item) : native.item = item := by
  unfold nativeReasoningItem at h
  simp only [bind_eq_ok, pure_eq_ok] at h
  obtain ⟨-, -, -, -, -, -, -, -, -, -, -, -, h⟩ := h
  exact h

namespace ResponsesLive

variable (uuid : ℕ → String) {r₀ : ResponsesReader} {out : ResponsesEncoding}
  {closed : List OutputItem} {opened : Option OpenItem}

section

variable (h : ResponsesLive r₀ out closed opened)

include h

/-- The last events of a reasoning item. A native item has to be the one that
was streamed. -/
theorem closeReasoningWith
    (native : Option NativeReasoning) (hnative : ∀ n ∈ native, ∃ state,
      out.encoder.reasoningItem = some state
      ∧ (n.item.get "id").bind Value.asStr = some state.itemId
      ∧ visibleText n = state.summaryText ++ state.reasoningText) :
    ∃ closed' opened', ResponsesLive r₀ (ResponsesEncoding.closeReasoningItem { out with
        encoder := { out.encoder with reasoningNative := native } }) closed' opened'
      ∧ itemTrack closed' opened' = itemTrack closed opened := by
  have hopen := h.synced.open_
  cases hreasoning : out.encoder.reasoningItem with
  | none =>
    -- No item is open, so there is no native one either.
    obtain rfl : native = none := by
      cases native with
      | none => rfl
      | some n =>
        obtain ⟨state, hstate, -⟩ := hnative n rfl
        exact absurd (hreasoning.symm.trans hstate) (by simp)
    have hsame : ResponsesEncoding.closeReasoningItem { out with
        encoder := { out.encoder with reasoningNative := none } }
          = { out with encoder := { out.encoder with reasoningNative := none } } :=
      ResponsesEncoding.closeReasoningItem_of_none hreasoning
    refine ⟨closed, opened, ?_, rfl⟩
    rw [hsame]
    exact ⟨h.reads, ⟨h.synced.index, h.synced.open_, rfl⟩, h.created⟩
  | some state =>
    rw [hreasoning] at hopen
    generalize htext : out.encoder.textItem = text at hopen
    generalize htool : out.encoder.toolItem = tool at hopen
    cases hopen with
    | reasoning state hstate hsound =>
      obtain ⟨seq, items, hencoder⟩ := @ResponsesEncoding.closeReasoningItem_of_some
        { out with encoder := { out.encoder with reasoningNative := native } } state hreasoning
      refine ⟨closed ++ [state.item native], none, ⟨?_, ?_, ?_⟩, ?_⟩
      · exact ResponsesReads.closeReasoningItem h.reads hreasoning hstate
          (hsound.repeats hnative hreasoning)
      · rw [hencoder]
        refine ⟨?_, ?_, rfl⟩
        · have hindex := h.synced.index
          show out.encoder.nextOutputIndex = _
          rw [hindex, List.length_append]
          rfl
        · show Shows _ none out.encoder.textItem out.encoder.toolItem none
          rw [htext, htool]
          exact .idle
      · rw [hencoder]
        exact h.created
      · show CallTrack.mk ((closed ++ [_]).filterMap OutputItem.call) none = _
        rw [List.filterMap_append, List.filterMap_cons_none (state.item_call native)]
        exact congrArg (CallTrack.mk · none) (List.append_nil _)

theorem closeReasoningItem :
    ∃ closed' opened', ResponsesLive r₀ out.closeReasoningItem closed' opened'
      ∧ itemTrack closed' opened' = itemTrack closed opened := by
  have hnone := h.closeReasoningWith none (fun n hn => absurd hn (by simp))
  rw [← h.synced.native] at hnone
  exact hnone

theorem closeTextItem :
    ∃ closed' opened', ResponsesLive r₀ out.closeTextItem closed' opened'
      ∧ itemTrack closed' opened' = itemTrack closed opened := by
  obtain ⟨encoder, frames⟩ := out
  obtain ⟨responseId, model, seq, created, next, reasoning, source, native, text, tool, completed,
    annotationIndex, pending, usage, uuids⟩ := encoder
  obtain ⟨hindex, hopen, hnative⟩ := h.synced
  dsimp only at hindex hopen hnative ⊢
  cases hopen with
  | text state hstate =>
    obtain ⟨itemId, index, text⟩ := state
    obtain rfl : index = closed.length := hstate
    have hlane := h.reads.finishLane .output rfl rfl
    have hdone := hlane.finishItem (.message itemId "completed" [text])
      (by simp [OpenItem.repeats, ItemState.shown])
    refine ⟨_, _, ⟨hdone, ⟨?_, .idle, hnative⟩, h.created⟩, ?_⟩
    · show next = (closed ++ [_]).length + 0
      rw [hindex, List.length_append]
      rfl
    · show CallTrack.mk ((closed ++ [_]).filterMap OutputItem.call) none = _
      rw [List.filterMap_append]
      exact congrArg (CallTrack.mk · none) (List.append_nil _)
  | _ => exact ⟨_, _, h, rfl⟩

theorem closeToolItem :
    ∃ closed' opened', ResponsesLive r₀ out.closeToolItem closed' opened'
      ∧ itemTrack closed' opened' = (itemTrack closed opened).settle := by
  obtain ⟨encoder, frames⟩ := out
  obtain ⟨responseId, model, seq, created, next, reasoning, source, native, text, tool, completed,
    annotationIndex, pending, usage, uuids⟩ := encoder
  obtain ⟨hindex, hopen, hnative⟩ := h.synced
  dsimp only at hindex hopen hnative ⊢
  cases hopen with
  | tool state hstate =>
    obtain ⟨callId, itemId, index, name, arguments, metadata⟩ := state
    obtain rfl : index = closed.length := hstate
    have harguments := h.reads.argumentsDone (customCall metadata) rfl (decide_eq_true rfl)
    have hdone := harguments.finishItem (.clientCall itemId "completed"
      (clientCallItem callId name arguments metadata))
      (by simp [OpenItem.repeats, ToolItemState.shown, clientCallItem])
    refine ⟨_, _, ⟨hdone, ⟨?_, .idle, hnative⟩, h.created⟩, ?_⟩
    · show next = (closed ++ [_]).length + 0
      rw [hindex, List.length_append]
      rfl
    · show CallTrack.mk ((closed ++ [_]).filterMap OutputItem.call) none = _
      rw [List.filterMap_append]
      rfl
  | idle => exact ⟨_, _, h, (CallTrack.settle_of_none rfl).symm⟩
  | text state hstate => exact ⟨_, _, h, (CallTrack.settle_of_none rfl).symm⟩
  | reasoning state hstate => exact ⟨_, _, h, (CallTrack.settle_of_none rfl).symm⟩

theorem opened_eq_none
    (hreasoning : out.encoder.reasoningItem = none) (htext : out.encoder.textItem = none)
    (htool : out.encoder.toolItem = none) : opened = none := by
  have hopen := h.synced.open_
  rw [hreasoning, htext, htool] at hopen
  cases hopen
  rfl

/-- **Everything is closed** before a call, a result or the end. -/
theorem closeAll :
    ∃ closed', ResponsesLive r₀ out.closeReasoningItem.closeTextItem.closeToolItem closed' none
      ∧ itemTrack closed' none = (itemTrack closed opened).settle := by
  obtain ⟨closed₁, opened₁, h₁, htrack₁⟩ := h.closeReasoningItem
  obtain ⟨closed₂, opened₂, h₂, htrack₂⟩ := h₁.closeTextItem
  obtain ⟨closed₃, opened₃, h₃, htrack₃⟩ := h₂.closeToolItem
  obtain rfl := h₃.opened_eq_none (by simp) (by simp) (by simp)
  exact ⟨closed₃, h₃, by rw [htrack₃, htrack₂, htrack₁]⟩

end

theorem items_eq_none (h : ResponsesLive r₀ out closed none) :
    out.encoder.reasoningItem = none ∧ out.encoder.textItem = none
      ∧ out.encoder.toolItem = none := by
  have hopen := h.synced.open_
  generalize out.encoder.reasoningItem = reasoning at hopen ⊢
  generalize out.encoder.textItem = text at hopen ⊢
  generalize out.encoder.toolItem = tool at hopen ⊢
  cases hopen
  exact ⟨rfl, rfl, rfl⟩

theorem addItem (h : ResponsesLive r₀ out closed none) (item : OutputItem) :
    ResponsesReads r₀ (out.addItem item) closed (some { item })
      ∧ (out.addItem item).encoder.nextOutputIndex = closed.length + 1 :=
  ⟨h.reads.addItem h.synced.index item, congrArg (· + 1) h.synced.index⟩

section

variable (h : ResponsesLive r₀ out closed opened)

include h

theorem drawId : ResponsesLive r₀ out.drawId closed opened :=
  ⟨h.reads, ⟨h.synced.index, h.synced.open_, h.synced.native⟩, h.created⟩

/-- The message that texts are added to. -/
theorem openTextItem :
    ∃ closed' state, ResponsesLive r₀ (out.openTextItem uuid) closed' (some state.shown)
      ∧ (out.openTextItem uuid).encoder.textItem = some state
      ∧ state.outputIndex = closed'.length
      ∧ itemTrack closed' (some (ItemState.shown state)) = (itemTrack closed opened).settle := by
  unfold ResponsesEncoding.openTextItem
  cases htext : out.encoder.textItem with
  | some state =>
    have hopen := h.synced.open_
    rw [htext] at hopen
    generalize out.encoder.reasoningItem = reasoning at hopen
    generalize out.encoder.toolItem = tool at hopen
    cases hopen with
    | text state hstate =>
      exact ⟨closed, state, h, htext, hstate, (CallTrack.settle_of_none rfl).symm⟩
  | none =>
    obtain ⟨closed₁, opened₁, h₁, htrack₁⟩ := h.closeReasoningItem
    obtain ⟨closed₂, opened₂, h₂, htrack₂⟩ := h₁.closeToolItem
    obtain rfl := h₂.opened_eq_none (by simp) (by simp [htext]) (by simp)
    generalize out.closeReasoningItem.closeToolItem = idle at h₂
    obtain ⟨hreasoning, -, htool⟩ := h₂.items_eq_none
    obtain ⟨hadd, hnext⟩ := h₂.drawId.addItem (.message (idle.freshId uuid "msg_") "in_progress" [])
    have hindex : idle.encoder.nextOutputIndex = closed₂.length := h₂.synced.index
    have hpart := hadd.partAdded .output rfl rfl rfl
    refine ⟨closed₂, _, ⟨?_, ⟨hnext, ?_, h₂.synced.native⟩, h₂.created⟩, rfl, hindex, ?_⟩
    · dsimp only
      rw [hindex]
      exact hpart
    · show Shows _ idle.encoder.reasoningItem _ idle.encoder.toolItem _
      rw [hreasoning, htool]
      exact .text _ hindex
    · calc
        _ = itemTrack closed₂ none := rfl
        _ = (itemTrack closed opened).settle := by rw [htrack₂, htrack₁]

theorem openReasoningItem (nativeId : Option String) :
    ∃ closed' state, ResponsesLive r₀ (out.openReasoningItem uuid nativeId) closed'
        (some state.shown)
      ∧ (out.openReasoningItem uuid nativeId).encoder.reasoningItem = some state
      ∧ state.Sound ∧ state.outputIndex = closed'.length
      ∧ itemTrack closed' (some (ReasoningItemState.shown state))
        = (itemTrack closed opened).settle := by
  unfold ResponsesEncoding.openReasoningItem
  cases hreasoning : out.encoder.reasoningItem with
  | some state =>
    have hopen := h.synced.open_
    rw [hreasoning] at hopen
    generalize out.encoder.textItem = text at hopen
    generalize out.encoder.toolItem = tool at hopen
    cases hopen with
    | reasoning state hstate hsound =>
      exact ⟨closed, state, h, hreasoning, hsound, hstate, (CallTrack.settle_of_none rfl).symm⟩
  | none =>
    obtain ⟨closed₁, opened₁, h₁, htrack₁⟩ := h.closeTextItem
    obtain ⟨closed₂, opened₂, h₂, htrack₂⟩ := h₁.closeToolItem
    obtain rfl := h₂.opened_eq_none (by simp [hreasoning]) (by simp) (by simp)
    generalize out.closeTextItem.closeToolItem = idle at h₂
    have hindex : idle.encoder.nextOutputIndex = closed₂.length := h₂.synced.index
    have hnamed : ResponsesLive r₀
        (if nativeId.isSome then idle else idle.drawId) closed₂ none := by
      split
      · exact h₂
      · exact h₂.drawId
    obtain ⟨-, htext, htool⟩ := hnamed.items_eq_none
    dsimp only
    rw [hindex]
    generalize nativeId.getD (idle.freshId uuid "rs_") = itemId
    generalize (if nativeId.isSome then idle else idle.drawId) = named at hnamed htext htool
    obtain ⟨hadd, hnext⟩ := hnamed.addItem (.reasoning itemId "in_progress" [] [])
    have htrack : itemTrack closed₂ none = (itemTrack closed opened).settle := by
      rw [htrack₂, htrack₁]
    -- A native item has no text yet.
    have hsource : (named.addItem (.reasoning itemId "in_progress" [] [])).encoder.reasoningSource
      = named.encoder.reasoningSource := rfl
    rw [hsource]
    generalize decide (named.encoder.reasoningSource ≠ some .responses) = textOpened
    refine ⟨closed₂, { itemId, outputIndex := closed₂.length, textOpened }, ?_, rfl,
      ⟨fun _ => rfl, fun _ => rfl⟩, rfl, htrack⟩
    cases textOpened with
    | true =>
      have hpart := hadd.partAdded .reasoning rfl rfl rfl
      refine ⟨hpart, ⟨hnext, ?_, hnamed.synced.native⟩, hnamed.created⟩
      show Shows _ _ named.encoder.textItem named.encoder.toolItem _
      rw [htext, htool]
      exact .reasoning _ rfl ⟨fun _ => rfl, fun _ => rfl⟩
    | false =>
      refine ⟨hadd, ⟨hnext, ?_, hnamed.synced.native⟩, hnamed.created⟩
      show Shows _ _ named.encoder.textItem named.encoder.toolItem _
      rw [htext, htool]
      exact .reasoning _ rfl ⟨fun _ => rfl, fun _ => rfl⟩

theorem openToolItem (callId name : String) (metadata : ProviderMetadata) :
    ∃ closed' state, ResponsesLive r₀ (out.openToolItem uuid callId name metadata) closed'
        (some state.shown)
      ∧ (out.openToolItem uuid callId name metadata).encoder.toolItem = some state
      ∧ state.outputIndex = closed'.length
      ∧ itemTrack closed' (some (ToolItemState.shown state))
        = { (itemTrack closed opened).settle with
            running := some { id := callId, name, arguments := "" } } := by
  obtain ⟨closed₁, h₁, htrack⟩ := h.closeAll
  unfold ResponsesEncoding.openToolItem
  generalize out.closeReasoningItem.closeTextItem.closeToolItem = idle at h₁
  obtain ⟨hreasoning, htext, -⟩ := h₁.items_eq_none
  obtain ⟨hadd, hnext⟩ := h₁.drawId.addItem (.clientCall (idle.freshId uuid "fc_") "in_progress"
    (clientCallItem callId name "" metadata))
  have hindex : idle.encoder.nextOutputIndex = closed₁.length := h₁.synced.index
  refine ⟨closed₁, { callId, itemId := idle.freshId uuid "fc_", outputIndex :=
    idle.encoder.nextOutputIndex, toolName := name, providerMetadata := metadata },
    ⟨hadd, ⟨hnext, ?_, h₁.synced.native⟩, h₁.created⟩, rfl, hindex, ?_⟩
  · show Shows _ idle.encoder.reasoningItem idle.encoder.textItem _ _
    rw [hreasoning, htext]
    exact .tool _ hindex
  · rw [← htrack]
    rfl

/-- The message, with one more text. -/
theorem textDelta (text : String) :
    ∃ closed' opened', ResponsesLive r₀ (out.textDelta uuid text) closed' opened'
      ∧ itemTrack closed' opened' = (itemTrack closed opened).settle := by
  obtain ⟨closed', state, h', hstate, hindex, htrack⟩ := h.openTextItem uuid
  unfold ResponsesEncoding.textDelta
  generalize out.openTextItem uuid = opened at h' hstate
  dsimp only
  rw [hstate]
  have hdelta := h'.reads.textDelta .output
    (show state.shown.item.itemId = some state.itemId from rfl) rfl text
  rw [← hindex] at hdelta
  refine ⟨closed', _, ⟨hdelta, ⟨h'.synced.index, ?_, h'.synced.native⟩, h'.created⟩, htrack⟩
  have hopen := h'.synced.open_
  rw [hstate] at hopen
  show Shows _ opened.encoder.reasoningItem _ opened.encoder.toolItem _
  generalize opened.encoder.reasoningItem = reasoning at hopen ⊢
  generalize opened.encoder.toolItem = tool at hopen ⊢
  cases hopen with
  | text _ h => exact .text _ h

/-- A citation of the message. -/
theorem cite (source : Source) :
    ∃ closed' opened', ResponsesLive r₀ (out.cite uuid source) closed' opened'
      ∧ itemTrack closed' opened' = (itemTrack closed opened).settle := by
  obtain ⟨closed', state, h', hstate, hindex, htrack⟩ := h.openTextItem uuid
  unfold ResponsesEncoding.cite
  generalize out.openTextItem uuid = opened at h' hstate
  dsimp only
  rw [hstate]
  have hnoted : ResponsesReads r₀ { opened with encoder := { opened.encoder with
      annotationIndex := opened.encoder.annotationIndex + 1 } } closed' (some state.shown) :=
    h'.reads
  have hdone (added : Value) := hnoted.annotationAdded opened.encoder.annotationIndex added
    (show state.shown.item.itemId = some state.itemId from rfl) rfl rfl
  rw [← hindex] at hdone
  have hopen := h'.synced.open_
  rw [hstate] at hopen
  exact ⟨closed', _, ⟨hdone _, ⟨h'.synced.index, hopen, h'.synced.native⟩, h'.created⟩, htrack⟩

theorem reasoningDelta (text : String) (sourceKind : Option ReasoningTextKind) :
    ∃ closed' opened', ResponsesLive r₀ (out.reasoningDelta uuid text sourceKind) closed' opened'
      ∧ itemTrack closed' opened' = (itemTrack closed opened).settle := by
  obtain ⟨closed', state, h', hstate, hsound, hindex, htrack⟩ :=
    h.openReasoningItem uuid none
  unfold ResponsesEncoding.reasoningDelta
  generalize out.openReasoningItem uuid none = opened at h' hstate
  generalize decide (sourceKind = some .summary) = summary
  have hopen := h'.synced.open_
  rw [hstate] at hopen
  generalize htext : opened.encoder.textItem = textItem at hopen
  generalize htool : opened.encoder.toolItem = tool at hopen
  cases hopen
  dsimp only
  rw [hstate]
  dsimp only
  have hstart : ResponsesReads r₀ { opened with encoder := { opened.encoder with
      reasoningItem := some (state.push summary text) } } closed' (some state.shown) := h'.reads
  have hpush := hstart.pushLane hsound _ summary text rfl
  rw [← hindex] at hpush
  have hshows : Shows closed'.length (some (state.push summary text)) opened.encoder.textItem
      opened.encoder.toolItem (some (state.push summary text).shown) := by
    rw [htext, htool]
    refine .reasoning _ ?_ (hsound.push summary text)
    exact (state.push_outputIndex summary text).trans hindex
  refine ⟨closed', some (state.push summary text).shown, ?_, ?_⟩
  · generalize (if summary then state.summaryOpened else state.textOpened) = isOpen at hpush ⊢
    cases isOpen <;>
      exact ⟨hpush, ⟨h'.synced.index, hshows, h'.synced.native⟩, h'.created⟩
  · exact htrack

/-- A fragment of the open call. -/
theorem argumentsDelta_of_open {state : ToolItemState}
    (hstate : out.encoder.toolItem = some state) (id arguments : String)
    (metadata : ProviderMetadata) :
    ∃ closed' opened', ResponsesLive r₀ (out.argumentsDelta uuid id arguments metadata)
        closed' opened'
      ∧ itemTrack closed' opened' = (itemTrack closed opened).delta id none arguments := by
  unfold ResponsesEncoding.argumentsDelta
  have hopen := h.synced.open_
  rw [hstate] at hopen
  generalize hreasoning : out.encoder.reasoningItem = reasoning at hopen
  generalize htext : out.encoder.textItem = text at hopen
  cases hopen with
  | tool state hindex =>
    rw [if_neg (by simp [hstate])]
    dsimp only
    rw [hstate]
    have hstart : ResponsesReads r₀ { out with encoder := { out.encoder with
        toolItem := some { state with accumulatedArgs := state.accumulatedArgs ++ arguments } } }
        closed (some state.shown) := h.reads
    have hdelta := hstart.argumentsDelta (customCall state.providerMetadata)
      (show state.shown.item.itemId = some state.itemId from rfl) (decide_eq_true rfl) arguments
    rw [← hindex] at hdelta
    refine ⟨closed, _, ⟨hdelta, ⟨h.synced.index, ?_, h.synced.native⟩, h.created⟩, rfl⟩
    show Shows _ out.encoder.reasoningItem out.encoder.textItem _ _
    rw [hreasoning, htext]
    exact .tool _ hindex

theorem argumentsDelta (id arguments : String) (metadata : ProviderMetadata) :
    ∃ closed' opened', ResponsesLive r₀ (out.argumentsDelta uuid id arguments metadata)
        closed' opened'
      ∧ ((itemTrack closed opened).running.isSome →
        itemTrack closed' opened' = (itemTrack closed opened).delta id none arguments) := by
  cases htool : out.encoder.toolItem with
  | some state =>
    obtain ⟨closed', opened', h', htrack⟩ :=
      h.argumentsDelta_of_open uuid htool id arguments metadata
    exact ⟨closed', opened', h', fun _ => htrack⟩
  | none =>
    obtain ⟨closed₁, state, h₁, hstate, -, -⟩ :=
      h.openToolItem uuid id "" metadata
    obtain ⟨closed', opened', h', -⟩ :=
      h₁.argumentsDelta_of_open uuid hstate id arguments metadata
    have hsame : (out.openToolItem uuid id "" metadata).argumentsDelta uuid id arguments metadata
        = out.argumentsDelta uuid id arguments metadata := by
      unfold ResponsesEncoding.argumentsDelta
      rw [hstate, htool]
      rfl
    rw [hsame] at h'
    refine ⟨closed', opened', h', fun hrunning => ?_⟩
    -- Without an open call the client has none.
    have hopen := h.synced.open_
    rw [htool] at hopen
    generalize out.encoder.reasoningItem = reasoning at hopen
    generalize out.encoder.textItem = text at hopen
    cases hopen <;> exact absurd hrunning (by simp [itemTrack, OpenItem.call, OutputItem.call,
      ReasoningItemState.shown, ItemState.shown])

theorem toolCallDelta (id : String) (name : Option String)
    (arguments : String) (metadata : ProviderMetadata) :
    ∃ closed' opened', ResponsesLive r₀ (out.toolCallDelta uuid id name arguments metadata)
        closed' opened'
      ∧ ((givenName name = none → arguments ≠ "" → (itemTrack closed opened).running.isSome) →
        itemTrack closed' opened'
          = (itemTrack closed opened).delta id (givenName name) arguments) := by
  unfold ResponsesEncoding.toolCallDelta
  cases givenName name with
  | some name =>
    obtain ⟨closed₁, state, h₁, hstate, -, htrack₁⟩ := h.openToolItem uuid id name metadata
    by_cases hempty : arguments = ""
    · obtain rfl := hempty
      exact ⟨closed₁, _, h₁, fun _ => htrack₁⟩
    · obtain ⟨closed', opened', h', htrack⟩ :=
        h₁.argumentsDelta_of_open uuid hstate id arguments metadata
      rw [if_neg hempty]
      refine ⟨closed', opened', h', fun _ => ?_⟩
      rw [htrack, htrack₁]
      show CallTrack.mk _ (some (StreamedCall.mk id name ("" ++ arguments))) = _
      rfl
  | none =>
    by_cases hempty : arguments = ""
    · obtain rfl := hempty
      exact ⟨closed, opened, h, fun _ => ((itemTrack closed opened).delta_empty id).symm⟩
    · obtain ⟨closed', opened', h', htrack⟩ := h.argumentsDelta uuid id arguments metadata
      rw [if_neg hempty]
      exact ⟨closed', opened', h', fun hrunning => htrack (hrunning rfl hempty)⟩

theorem serverToolResult (callId : String) (output : ToolResultOutput) :
    ∃ closed' opened', ResponsesLive r₀ (out.serverToolResult uuid callId output) closed' opened'
      ∧ itemTrack closed' opened' = (itemTrack closed opened).settle := by
  obtain ⟨closed₁, h₁, htrack⟩ := h.closeAll
  unfold ResponsesEncoding.serverToolResult
  generalize out.closeReasoningItem.closeTextItem.closeToolItem = idle at h₁
  dsimp only
  generalize idle.encoder.pendingMcpCall.filter (·.id = callId) = pending
  have hidle : ResponsesLive r₀ (ResponsesEncoding.drawId { idle with encoder := { idle.encoder with
      pendingMcpCall := none } }) closed₁ none :=
    ⟨h₁.reads, ⟨h₁.synced.index, h₁.synced.open_, h₁.synced.native⟩, h₁.created⟩
  generalize ResponsesEncoding.freshId uuid _ "mcp_" = itemId
  have hindex : idle.encoder.nextOutputIndex = closed₁.length := h₁.synced.index
  generalize (pending.map (·.name)).getD "" = name
  generalize (pending.map (·.arguments)).getD "" = arguments
  generalize pending.bind (·.serverName) = label
  obtain ⟨hadd, hnext⟩ := hidle.addItem
    (.mcpCall itemId name arguments (mcpCallOutput output).1 label (mcpCallOutput output).2)
  have hdone := hadd.finishItem
    (.mcpCall itemId name arguments (mcpCallOutput output).1 label (mcpCallOutput output).2)
    (by simp [OpenItem.repeats])
  rw [← hindex] at hdone
  obtain ⟨hreasoning, htext, htool⟩ := hidle.items_eq_none
  refine ⟨_, _, ⟨hdone, ⟨?_, ?_, hidle.synced.native⟩, hidle.created⟩, ?_⟩
  · refine hnext.trans ?_
    rw [List.length_append]
    rfl
  · show Shows _ idle.encoder.reasoningItem idle.encoder.textItem idle.encoder.toolItem none
    rw [show idle.encoder.reasoningItem = none from hreasoning,
      show idle.encoder.textItem = none from htext, show idle.encoder.toolItem = none from htool]
    exact .idle
  · rw [← htrack]
    show CallTrack.mk ((closed₁ ++ [_]).filterMap OutputItem.call) none = _
    rw [List.filterMap_append]
    exact congrArg (CallTrack.mk · none) (List.append_nil _)

/-- The end of a block of reasoning. -/
theorem reasoningEnd {next : ResponsesEncoding}
    {id : String} {native : Option NativeReasoning} (hok : out.reasoningEnd id native = .ok next) :
    ∃ closed' opened', ResponsesLive r₀ next closed' opened'
      ∧ itemTrack closed' opened' = itemTrack closed opened := by
  cases native with
  | none =>
    obtain rfl := Except.ok.inj hok
    exact h.closeReasoningItem
  | some native =>
    obtain ⟨item, hitem, hok⟩ := bind_eq_ok.mp hok
    cases hreasoning : out.encoder.reasoningItem with
    | none =>
      rw [hreasoning] at hok
      exact absurd hok (by simp)
    | some state =>
      rw [hreasoning] at hok
      obtain ⟨_, hid, hok⟩ := bind_eq_ok.mp hok
      obtain ⟨_, htext, hok⟩ := bind_eq_ok.mp hok
      obtain rfl := pure_eq_ok.mp hok
      obtain ⟨hstate, hid⟩ := ensure_eq_ok.mp hid
      refine h.closeReasoningWith (some native) fun n hn => ?_
      obtain rfl := Option.some.inj hn
      obtain rfl := nativeReasoningItem_eq_ok (mapError_eq_ok.mp hitem)
      exact ⟨state, hreasoning, hid.trans (congrArg some hstate.symm), ensure_eq_ok.mp htext⟩

/-- **The end of the items.** -/
theorem emitTerminal (status responseId : String) (usage : Option Usage) :
    ∃ r, r₀.readAll (out.emitTerminal status responseId usage).frames = some r
      ∧ r.phase = .done ∧ r.track = (itemTrack closed opened).settle := by
  obtain ⟨closed₁, h₁, htrack⟩ := h.closeAll
  unfold ResponsesEncoding.emitTerminal
  generalize out.closeReasoningItem.closeTextItem.closeToolItem = idle at h₁
  refine ⟨{ reading idle.encoder closed₁ none with
    seq := idle.encoder.seq + 1, phase := .done }, ?_, rfl, htrack⟩
  show r₀.readAll (idle.frames ++ [_]) = _
  rw [ResponsesReader.readAll_append, show r₀.readAll idle.frames = _ from h₁.reads]
  show ((reading idle.encoder closed₁ none).read _).bind some = _
  rw [Option.bind_fun_some]
  exact (if_pos rfl).trans rfl

end

end ResponsesLive

/-! ### One part -/

def opensItem : StreamPart → Bool
  | .other (.textStart _) | .other (.reasoningStart _ _) | .other (.reasoningDelta _ _)
  | .other (.source _) | .textDelta _ | .serverToolResult _ _ _ _ => true
  | .toolCallDelta _ name _ _ => (givenName name).isSome
  | _ => false

/-- Whether a fragment finds a call open. -/
def FindsCall (t : CallTrack) : StreamPart → Prop
  | .toolCallDelta _ name arguments _ =>
    givenName name = none → arguments ≠ "" → t.running.isSome
  | _ => True

namespace ResponsesLive

variable {uuid : ℕ → String} {r₀ : ResponsesReader} {out next : ResponsesEncoding}
  {closed : List OutputItem} {opened : Option OpenItem} {part : StreamPart}

/-- **The client reads the frames of a part.** -/
theorem encodePart (h : ResponsesLive r₀ out closed opened) (hpart : part.isTerminal = false)
    (hok : out.encodePart uuid part = .ok next) :
    ∃ closed' opened', ResponsesLive r₀ next closed' opened'
      ∧ (FindsCall (itemTrack closed opened) part →
        itemTrack closed' opened' = (itemTrack closed opened).advance opensItem part) := by
  cases part with
  | textDelta text =>
    obtain rfl := Except.ok.inj hok
    obtain ⟨closed', opened', h', htrack⟩ := h.textDelta uuid text
    exact ⟨closed', opened', h', fun _ => htrack⟩
  | toolCallDelta id name arguments metadata =>
    obtain rfl := Except.ok.inj hok
    exact h.toolCallDelta uuid id name arguments metadata
  | serverToolCall id name arguments serverName dyn =>
    obtain rfl := Except.ok.inj hok
    exact ⟨closed, opened, ⟨h.reads, ⟨h.synced.index, h.synced.open_, h.synced.native⟩, h.created⟩,
      fun _ => rfl⟩
  | serverToolResult callId name output dyn =>
    obtain rfl := Except.ok.inj hok
    obtain ⟨closed', opened', h', htrack⟩ := h.serverToolResult uuid callId output
    exact ⟨closed', opened', h', fun _ => htrack⟩
  | usage usage =>
    obtain rfl := Except.ok.inj hok
    exact ⟨closed, opened, ⟨h.reads, ⟨h.synced.index, h.synced.open_, h.synced.native⟩, h.created⟩,
      fun _ => rfl⟩
  | finish reason => exact absurd hpart (by simp [StreamPart.isTerminal])
  | responseCompleted completion usage => exact absurd hpart (by simp [StreamPart.isTerminal])
  | other part =>
    cases part with
    | textStart id =>
      obtain rfl := Except.ok.inj hok
      obtain ⟨closed₁, opened₁, h₁, htrack₁⟩ := h.closeTextItem
      obtain ⟨closed', state, h', -, -, htrack⟩ := h₁.openTextItem uuid
      exact ⟨closed', _, h', fun _ => htrack.trans (congrArg CallTrack.settle htrack₁)⟩
    | textEnd id =>
      obtain rfl := Except.ok.inj hok
      obtain ⟨closed', opened', h', htrack⟩ := h.closeTextItem
      exact ⟨closed', opened', h', fun _ => htrack⟩
    | reasoningStart id source =>
      obtain rfl := Except.ok.inj hok
      obtain ⟨closed₁, opened₁, h₁, htrack₁⟩ := h.closeReasoningItem
      have hsource : ResponsesLive r₀ { out.closeReasoningItem with encoder := {
          out.closeReasoningItem.encoder with reasoningSource := source } } closed₁ opened₁ :=
        ⟨h₁.reads, ⟨h₁.synced.index, h₁.synced.open_, h₁.synced.native⟩, h₁.created⟩
      obtain ⟨closed', state, h', -, -, -, htrack⟩ := hsource.openReasoningItem uuid
        (if source = some .responses then some id else none)
      exact ⟨closed', _, h', fun _ => htrack.trans (congrArg CallTrack.settle htrack₁)⟩
    | reasoningDelta text sourceKind =>
      obtain rfl := Except.ok.inj hok
      obtain ⟨closed', opened', h', htrack⟩ := h.reasoningDelta uuid text sourceKind
      exact ⟨closed', opened', h', fun _ => htrack⟩
    | reasoningEnd id signature native =>
      obtain ⟨closed', opened', h', htrack⟩ := h.reasoningEnd hok
      exact ⟨closed', opened', h', fun _ => htrack⟩
    | file data mediaType =>
      obtain rfl := Except.ok.inj hok
      exact ⟨closed, opened, h, fun _ => rfl⟩
    | source source =>
      obtain rfl := Except.ok.inj hok
      obtain ⟨closed', opened', h', htrack⟩ := h.cite uuid source
      exact ⟨closed', opened', h', fun _ => htrack⟩
    | responseStarted id model =>
      obtain rfl := Except.ok.inj hok
      exact ⟨closed, opened, h, fun _ => rfl⟩

end ResponsesLive

end BitRouter.Gateway
