import BitRouter.Data.Upsert
import BitRouter.Gateway.Collect
import BitRouter.Gateway.Commitment
import BitRouter.Gateway.StreamedCalls

/-!
# Commitments to a streamed turn

A streamed turn is committed to as its parts arrive, in a bounded space: one
running field of text or reasoning, and one accumulator for each of at most
64 tool calls (`StreamingAssistantTurnCommitment`). Whatever it cannot follow
invalidates the turn.

What a valid accumulator has hashed is the transcript of the parts it has seen
(`Tells.observe`): its fields in the order they were begun, with the calls at
the end. No collision of SHA-256 among the ids of the calls is assumed, since
the calls are told apart by the digests of their ids.
-/

namespace BitRouter.Gateway

open Ai

/-! ## The accumulator -/

inductive StreamingFieldKind
  | text
  | reasoning
  deriving DecidableEq

def StreamingFieldKind.tag : StreamingFieldKind → ℕ
  | text => 1
  | reasoning => 2

structure ActiveStreamingField where
  kind : StreamingFieldKind
  marker : Option FieldDigest
  value : FieldAccumulator

structure StreamingToolCall where
  id : FieldDigest
  name : Option FieldDigest
  arguments : FieldAccumulator

def maxStreamingCommitmentToolCalls : ℕ := 64

structure StreamingAssistantTurnCommitment where
  turn : TurnAccumulator := {}
  active : Option ActiveStreamingField := none
  tools : List StreamingToolCall := []
  toolBatchStarted : Bool := false

namespace StreamingAssistantTurnCommitment

variable (sha256 : List ℕ → List ℕ)

def invalidate (s : StreamingAssistantTurnCommitment) : StreamingAssistantTurnCommitment :=
  { s with turn := s.turn.invalidate }

def finishActive (s : StreamingAssistantTurnCommitment) : StreamingAssistantTurnCommitment :=
  match s.active with
  | none => s
  | some active =>
    { s with
      active := none
      turn := s.turn.addPart active.kind.tag [active.value.finish sha256]
        (0 < (active.value.finish sha256).len) }

def beginField (s : StreamingAssistantTurnCommitment) (kind : StreamingFieldKind)
    (marker : Option String) : StreamingAssistantTurnCommitment :=
  if s.toolBatchStarted then s.invalidate
  else { s.finishActive sha256 with
    active := some { kind, marker := marker.bind (field sha256), value := {} } }

/-- Add to the running field. -/
def extendActive (s : StreamingAssistantTurnCommitment) (value : String) :
    StreamingAssistantTurnCommitment :=
  match s.active with
  | none => s
  | some active =>
    match active.value.update (bytes value) with
    | some value => { s with active := some { active with value } }
    | none => s.invalidate

def updateField (s : StreamingAssistantTurnCommitment) (kind : StreamingFieldKind)
    (value : String) : StreamingAssistantTurnCommitment :=
  if s.active.all (·.kind ≠ kind) then (s.beginField sha256 kind none).extendActive value
  else s.extendActive value

def endField (s : StreamingAssistantTurnCommitment) (kind : StreamingFieldKind)
    (marker : String) : StreamingAssistantTurnCommitment :=
  if s.active.all fun active =>
      active.kind ≠ kind || (active.marker.isSome && active.marker ≠ field sha256 marker) then
    s.invalidate
  else s.finishActive sha256

/-- Add a fragment to the call at an index. -/
def extendTool (s : StreamingAssistantTurnCommitment) (index : ℕ) (arguments : String) :
    StreamingAssistantTurnCommitment :=
  match s.tools[index]? with
  | none => s.invalidate
  | some tool =>
    match tool.arguments.update (bytes arguments) with
    | some arguments => { s with tools := s.tools.set index { tool with arguments } }
    | none => s.invalidate

/-- A new call, with its name and its first fragment. -/
def beginTool (s : StreamingAssistantTurnCommitment) (id : FieldDigest) (name arguments : String) :
    StreamingAssistantTurnCommitment :=
  match field sha256 name with
  | none => s.invalidate
  | some name =>
    if name.len = 0 then s.invalidate
    else
      match ({} : FieldAccumulator).update (bytes arguments) with
      | some arguments => { s with tools := s.tools ++ [{ id, name := some name, arguments }] }
      | none => s.invalidate

def observeToolDelta (s : StreamingAssistantTurnCommitment) (id : String) (name : Option String)
    (arguments : String) : StreamingAssistantTurnCommitment :=
  let s := { s.finishActive sha256 with toolBatchStarted := true }
  match field sha256 id with
  | none => s.invalidate
  | some id =>
    if id.len = 0 then s.invalidate
    else
      match s.tools.findIdx? (·.id = id), name with
      | some index, none => s.extendTool index arguments
      | some _, some _ => s.invalidate
      | none, none => s.invalidate
      | none, some name =>
        if s.tools.length < maxStreamingCommitmentToolCalls then
          s.beginTool sha256 id name arguments
        else s.invalidate

/-- **Observe one part.** -/
def observe (s : StreamingAssistantTurnCommitment) : StreamPart → StreamingAssistantTurnCommitment
  | .other (.textStart id) => s.beginField sha256 .text (some id)
  | .textDelta text => s.updateField sha256 .text text
  | .other (.textEnd id) => s.endField sha256 .text id
  | .other (.reasoningStart id _) => s.beginField sha256 .reasoning (some id)
  | .other (.reasoningDelta text _) => s.updateField sha256 .reasoning text
  | .other (.reasoningEnd id _ _) => s.endField sha256 .reasoning id
  | .toolCallDelta id name arguments metadata =>
    if metadata.isEmpty then s.observeToolDelta sha256 id name arguments else s.invalidate
  | .serverToolCall id name arguments _ dynamic =>
    let s := s.finishActive sha256
    if s.toolBatchStarted then s.invalidate
    else { s with turn := observeToolCall sha256 s.turn id name arguments true dynamic }
  | .serverToolResult _ _ _ _ => (s.finishActive sha256).invalidate
  | .other (.file _ _) => (s.finishActive sha256).invalidate
  | .other (.source _) => (s.finishActive sha256).invalidate
  | .usage _ => s
  | .other (.responseStarted _ _) => s
  | .finish _ => s
  | .responseCompleted _ _ => s

/-- Hash a call at the end of the stream. -/
def finishTool (turn : TurnAccumulator) (tool : StreamingToolCall) : TurnAccumulator :=
  match tool.name with
  | none => turn.invalidate
  | some name => turn.addPart 3 [tool.id, name, tool.arguments.finish sha256,
      boolField sha256 false, boolField sha256 false] true

def finish (s : StreamingAssistantTurnCommitment) : Option AssistantTurnCommitment :=
  ((s.finishActive sha256).tools.foldl (finishTool sha256)
    (s.finishActive sha256).turn).finish sha256

end StreamingAssistantTurnCommitment

/-- **The commitment of a stream.** -/
def streamedCommitment (sha256 : List ℕ → List ℕ) (parts : List StreamPart) :
    Option AssistantTurnCommitment :=
  (parts.foldl (StreamingAssistantTurnCommitment.observe sha256) {}).finish sha256

/-! ## Transcripts -/

/-- What a field or a call of a turn says. -/
inductive Segment
  | text (value : String)
  | reasoning (value : String)
  | call (id name arguments : String) (executed dynamic : Bool) (metadata : ProviderMetadata)

def Segment.saying : Segment → Option Saying
  | text value => textSaying 1 value
  | reasoning value => textSaying 2 value
  | call id name arguments executed dynamic _ => callSaying id name arguments executed dynamic

/-- What a running field says. -/
def StreamingFieldKind.segment : StreamingFieldKind → String → Segment
  | text, value => .text value
  | reasoning, value => .reasoning value

def StreamedCall.segment (call : StreamedCall) : Segment :=
  .call call.id call.name call.arguments false false []

/-- **The transcript of a stream**: the fields that are finished, the one that
is running, and the calls. -/
structure Transcript where
  segments : List Segment := []
  active : Option (StreamingFieldKind × String) := none
  calls : List StreamedCall := []
  batch : Bool := false

namespace Transcript

/-- The running field as a segment. -/
def running (t : Transcript) : List Segment :=
  (t.active.map fun (kind, value) => kind.segment value).toList

/-- All that was said, in the order it is hashed in. -/
def all (t : Transcript) : List Segment :=
  t.segments ++ t.running ++ t.calls.map StreamedCall.segment

def finishActive (t : Transcript) : Transcript :=
  { t with segments := t.segments ++ t.running, active := none }

def beginField (t : Transcript) (kind : StreamingFieldKind) (value : String) : Transcript :=
  { t.finishActive with active := some (kind, value) }

def updateField (t : Transcript) (kind : StreamingFieldKind) (value : String) : Transcript :=
  match t.active with
  | some (running, current) =>
    if running = kind then { t with active := some (kind, current ++ value) }
    else t.beginField kind value
  | none => t.beginField kind value

/-- Add a fragment to the call with an id. -/
def extendCall (t : Transcript) (id arguments : String) : Transcript :=
  { t with calls := t.calls.map fun call =>
      if call.id = id then { call with arguments := call.arguments ++ arguments } else call }

def observeCall (t : Transcript) (id : String) (name : Option String) (arguments : String) :
    Transcript :=
  let t := { t.finishActive with batch := true }
  if t.calls.any (·.id = id) then t.extendCall id arguments
  else { t with calls := t.calls ++ [{ id, name := name.getD "", arguments }] }

/-- **The transcript after one more part.** -/
def step (t : Transcript) : StreamPart → Transcript
  | .other (.textStart _) => t.beginField .text ""
  | .textDelta text => t.updateField .text text
  | .other (.textEnd _) => t.finishActive
  | .other (.reasoningStart _ _) => t.beginField .reasoning ""
  | .other (.reasoningDelta text _) => t.updateField .reasoning text
  | .other (.reasoningEnd _ _ _) => t.finishActive
  | .toolCallDelta id name arguments _ => t.observeCall id name arguments
  | .serverToolCall id name arguments serverName dynamic =>
    { t.finishActive with segments := t.finishActive.segments
        ++ [.call id name arguments true dynamic (Collector.serverMetadata serverName dynamic)] }
  | _ => t

/-- **What a part has to meet** for the accumulator to follow it. -/
def Follows (t : Transcript) : StreamPart → Prop
  | .other (.textStart _) => t.batch = false
  | .textDelta _ => t.batch = false
  | .other (.textEnd _) => t.batch = false
  | .other (.reasoningStart _ _) => t.batch = false
  | .other (.reasoningDelta _ _) => t.batch = false
  | .other (.reasoningEnd _ _ _) => t.batch = false
  | .toolCallDelta id name _ metadata =>
    metadata = [] ∧ id ≠ "" ∧
      if t.calls.any (·.id = id) then name = none
      else (∃ name', name = some name' ∧ name' ≠ "") ∧
        t.calls.length < maxStreamingCommitmentToolCalls
  | .serverToolCall id name _ _ _ => t.batch = false ∧ id ≠ "" ∧ name ≠ ""
  | .serverToolResult _ _ _ _ => False
  | .other (.file _ _) => False
  | .other (.source _) => False
  | _ => True

end Transcript

def transcript (parts : List StreamPart) : Transcript := parts.foldl Transcript.step {}

/-! ## Fields that are told -/

def digestOf (sha256 : List ℕ → List ℕ) (value : String) : FieldDigest :=
  { len := (bytes value).length, digest := sha256 (assistantTurnFieldDomain ++ bytes value) }

/-- **An accumulator has read a text**, which is short enough to be counted. -/
structure FieldTells (f : FieldAccumulator) (value : String) : Prop where
  hasher : f.hasher = assistantTurnFieldDomain ++ bytes value
  len : f.len = (bytes value).length
  short : (bytes value).length < 256 ^ 8

variable {arguments id : String} {kind : StreamingFieldKind} {parts : List StreamPart}
  {tools : List StreamingToolCall}

section Tells

variable {sha256 : List ℕ → List ℕ}

theorem field_eq_some {value : String} {d : FieldDigest} :
    field sha256 value = some d ↔ d = digestOf sha256 value ∧ (bytes value).length < 256 ^ 8 := by
  rw [field_eq]
  split
  · rename_i hshort
    exact ⟨fun h => ⟨(Option.some.inj h).symm, hshort⟩, fun h => congrArg some h.1.symm⟩
  · rename_i hlong
    exact ⟨fun h => absurd h (by simp), fun h => absurd h.2 hlong⟩

theorem digestOf_len_eq_zero {value : String} : (digestOf sha256 value).len = 0 ↔ value = "" := by
  show (bytes value).length = 0 ↔ _
  rw [List.length_eq_zero_iff, bytes_eq_nil]

namespace FieldTells

variable {f f' : FieldAccumulator} {value more : String}

theorem empty : FieldTells {} "" := ⟨(List.append_nil _).symm, rfl, by decide⟩

theorem update (h : FieldTells f value) (hf : f.update (bytes more) = some f') :
    FieldTells f' (value ++ more) := by
  unfold FieldAccumulator.update at hf
  split at hf
  · rename_i hshort
    obtain rfl := Option.some.inj hf
    rw [h.len, ← List.length_append, ← bytes_append] at hshort
    refine ⟨?_, ?_, hshort⟩
    · show f.hasher ++ _ = _
      rw [h.hasher, bytes_append, List.append_assoc]
    · show f.len + _ = _
      rw [h.len, bytes_append, List.length_append]
  · exact absurd hf (by simp)

theorem finish (h : FieldTells f value) : f.finish sha256 = digestOf sha256 value := by
  unfold FieldAccumulator.finish digestOf
  rw [h.hasher, h.len]

theorem textSaying (h : FieldTells f value) (tag : ℕ) : Gateway.textSaying tag value
    = some { part := { tag, fields := [bytes value] }, meaningful := value ≠ "" } :=
  if_pos (by simpa using h.short)

end FieldTells

/-! ## Accumulators that tell a transcript -/

structure ToolTells (sha256 : List ℕ → List ℕ) (tool : StreamingToolCall) (call : StreamedCall) :
    Prop where
  id : field sha256 call.id = some tool.id
  name : ∃ d, field sha256 call.name = some d ∧ tool.name = some d
  arguments : FieldTells tool.arguments call.arguments
  named : call.id ≠ "" ∧ call.name ≠ ""

/-- The running field, if there is one. -/
def ActiveTells (active : Option ActiveStreamingField) :
    Option (StreamingFieldKind × String) → Prop
  | none => active = none
  | some (kind, value) => ∃ field, active = some field ∧ field.kind = kind
    ∧ FieldTells field.value value

/-- **A valid accumulator tells a transcript.** -/
structure Tells (sha256 : List ℕ → List ℕ) (s : StreamingAssistantTurnCommitment)
    (t : Transcript) : Prop where
  turn : ∃ said, s.turn.Holds sha256 said ∧ t.segments.map Segment.saying = said.map some
  active : ActiveTells s.active t.active
  tools : List.Forall₂ (ToolTells sha256) s.tools t.calls
  batch : s.toolBatchStarted = t.batch
  quiet : t.batch = true → t.active = none
  idle : t.batch = false → t.calls = []
  nodup : (t.calls.map (·.id)).Nodup

namespace Tells

variable {s : StreamingAssistantTurnCommitment} {t : Transcript}

theorem empty : Tells sha256 {} {} :=
  ⟨⟨[], TurnAccumulator.Holds.empty, rfl⟩, rfl, List.Forall₂.nil, rfl,
    fun h => absurd h (by decide),
    fun _ => rfl, List.nodup_nil⟩

/-- The running field is finished. -/
theorem finishActive (h : Tells sha256 s t) (hvalid : (s.finishActive sha256).turn.valid = true) :
    Tells sha256 (s.finishActive sha256) t.finishActive := by
  unfold StreamingAssistantTurnCommitment.finishActive at hvalid ⊢
  unfold Transcript.finishActive Transcript.running
  have hactive := h.active
  cases ht : t.active with
  | none =>
    rw [ht] at hactive
    have hnone : s.active = none := hactive
    rw [hnone]
    refine ⟨?_, hnone, h.tools, h.batch, fun _ => rfl, h.idle, h.nodup⟩
    simpa using h.turn
  | some field =>
    obtain ⟨kind, value⟩ := field
    rw [ht] at hactive
    obtain ⟨field, hfield, rfl, htells⟩ := hactive
    rw [hfield] at hvalid ⊢
    dsimp only at hvalid ⊢
    obtain ⟨said, hsaid, hsegments⟩ := h.turn
    have hadd : s.turn.addPart field.kind.tag [field.value.finish sha256]
        (0 < (field.value.finish sha256).len)
        = s.turn.add sha256 (textSaying field.kind.tag value) := by
      rw [htells.textSaying, htells.finish]
      have hmeaningful : (decide (0 < (digestOf sha256 value).len)) = decide (value ≠ "") := by
        rw [decide_eq_decide, Nat.pos_iff_ne_zero, ne_eq, digestOf_len_eq_zero]
      rw [hmeaningful]
      rfl
    rw [hadd] at hvalid ⊢
    obtain ⟨saying, hsaying, hholds⟩ := hsaid.of_add hvalid
    refine ⟨⟨said ++ [saying], hholds, ?_⟩, rfl, h.tools, h.batch, fun _ => rfl, h.idle, h.nodup⟩
    show (t.segments ++ [field.kind.segment value]).map Segment.saying = _
    rw [List.map_append, List.map_append, hsegments, List.map_singleton, List.map_singleton,
      ← hsaying]
    cases field.kind <;> rfl

theorem invalid_of_invalidate {p : Prop}
    (h : (s.invalidate).turn.valid = true) : p := absurd h Bool.false_ne_true

theorem valid_of_finishActive (h : (s.finishActive sha256).turn.valid = true) :
    s.turn.valid = true := by
  by_contra hnot
  unfold StreamingAssistantTurnCommitment.finishActive at h
  split at h
  · exact hnot h
  · dsimp only at h
    unfold TurnAccumulator.addPart at h
    rw [if_pos hnot] at h
    exact hnot h

theorem beginField {kind : StreamingFieldKind} {marker : Option String} (h : Tells sha256 s t)
    (hvalid : (s.beginField sha256 kind marker).turn.valid = true) :
    t.batch = false ∧ Tells sha256 (s.beginField sha256 kind marker) (t.beginField kind "") := by
  unfold StreamingAssistantTurnCommitment.beginField at hvalid ⊢
  split at hvalid
  · exact invalid_of_invalidate hvalid
  · rename_i hbatch
    have hquiet : t.batch = false := by
      rw [← h.batch]
      exact Bool.eq_false_iff.mpr hbatch
    rw [if_neg hbatch]
    have hfinished := h.finishActive hvalid
    refine ⟨hquiet, hfinished.turn, ⟨_, rfl, rfl, FieldTells.empty⟩, hfinished.tools,
      hfinished.batch, fun hfalse => ?_, hfinished.idle, hfinished.nodup⟩
    exact absurd (hquiet.symm.trans hfalse) Bool.false_ne_true

theorem extendActive {kind : StreamingFieldKind} {current value : String} (h : Tells sha256 s t)
    (hactive : t.active = some (kind, current))
    (hvalid : (s.extendActive value).turn.valid = true) :
    Tells sha256 (s.extendActive value) { t with active := some (kind, current ++ value) } := by
  have htells := h.active
  rw [hactive] at htells
  obtain ⟨field, hfield, rfl, hcurrent⟩ := htells
  unfold StreamingAssistantTurnCommitment.extendActive at hvalid ⊢
  rw [hfield] at hvalid ⊢
  dsimp only at hvalid ⊢
  cases hupdate : field.value.update (bytes value) with
  | none =>
    rw [hupdate] at hvalid
    exact invalid_of_invalidate hvalid
  | some updated =>
    refine ⟨h.turn, ⟨_, rfl, rfl, hcurrent.update hupdate⟩, h.tools, h.batch, fun hbatch => ?_,
      h.idle, h.nodup⟩
    exact absurd (h.quiet hbatch) (by simp [hactive])

theorem valid_of_extendActive {value : String} (h : (s.extendActive value).turn.valid = true) :
    s.turn.valid = true := by
  unfold StreamingAssistantTurnCommitment.extendActive at h
  split at h
  · exact h
  · split at h
    · exact h
    · exact invalid_of_invalidate h

theorem updateField {kind : StreamingFieldKind} {value : String} (h : Tells sha256 s t)
    (hvalid : (s.updateField sha256 kind value).turn.valid = true) :
    t.batch = false
      ∧ Tells sha256 (s.updateField sha256 kind value) (t.updateField kind value) := by
  have hbegin : s.active.all (·.kind ≠ kind) = true →
      t.batch = false ∧ Tells sha256 (s.updateField sha256 kind value)
          (t.beginField kind value) := by
    intro hall
    unfold StreamingAssistantTurnCommitment.updateField at hvalid ⊢
    rw [if_pos hall] at hvalid ⊢
    obtain ⟨hbatch, hbegun⟩ := h.beginField (valid_of_extendActive hvalid)
    have hrunning : (t.beginField kind "").active = some (kind, "") := rfl
    have hextended := hbegun.extendActive hrunning hvalid
    exact ⟨hbatch, hextended⟩
  have hactive := h.active
  unfold Transcript.updateField
  cases ht : t.active with
  | none =>
    rw [ht] at hactive
    exact hbegin (by rw [show s.active = none from hactive]; rfl)
  | some running =>
    obtain ⟨running, current⟩ := running
    rw [ht] at hactive
    obtain ⟨field, hfield, rfl, -⟩ := hactive
    dsimp only
    split
    · rename_i hkind
      subst hkind
      unfold StreamingAssistantTurnCommitment.updateField at hvalid ⊢
      have hnot : ¬ s.active.all (·.kind ≠ field.kind) = true := by simp [hfield]
      rw [if_neg hnot] at hvalid ⊢
      refine ⟨?_, h.extendActive ht hvalid⟩
      exact Bool.eq_false_iff.mpr fun hbatch => absurd (h.quiet hbatch) (by simp [ht])
    · rename_i hkind
      exact hbegin (by simp [hfield, hkind])

theorem endField {kind : StreamingFieldKind} {marker : String} (h : Tells sha256 s t)
    (hvalid : (s.endField sha256 kind marker).turn.valid = true) :
    t.batch = false ∧ Tells sha256 (s.endField sha256 kind marker) t.finishActive := by
  unfold StreamingAssistantTurnCommitment.endField at hvalid ⊢
  split at hvalid
  · exact invalid_of_invalidate hvalid
  · rename_i hmatches
    rw [if_neg hmatches]
    refine ⟨Bool.eq_false_iff.mpr fun hbatch => hmatches ?_, h.finishActive hvalid⟩
    have hactive := h.active
    rw [h.quiet hbatch] at hactive
    rw [show s.active = none from hactive]
    rfl

theorem serverToolCall {id name arguments : String} {serverName : Option String} {dynamic : Bool}
    (h : Tells sha256 s t) (hvalid : (s.observe sha256
      (.serverToolCall id name arguments serverName dynamic)).turn.valid = true) :
    t.Follows (.serverToolCall id name arguments serverName dynamic)
      ∧ Tells sha256 (s.observe sha256 (.serverToolCall id name arguments serverName dynamic))
        (t.step (.serverToolCall id name arguments serverName dynamic)) := by
  have hstep : s.observe sha256 (.serverToolCall id name arguments serverName dynamic)
      = if (s.finishActive sha256).toolBatchStarted then (s.finishActive sha256).invalidate
        else { s.finishActive sha256 with
          turn := observeToolCall sha256 (s.finishActive sha256).turn id name arguments true
            dynamic } := rfl
  rw [hstep] at hvalid ⊢
  split at hvalid
  · exact invalid_of_invalidate hvalid
  · rename_i hbatch
    dsimp only at hvalid
    rw [if_neg hbatch]
    rw [observeToolCall_eq] at hvalid
    obtain ⟨hfinished, -⟩ := TurnAccumulator.valid_of_add hvalid
    have hfinished := h.finishActive hfinished
    obtain ⟨said, hsaid, hsegments⟩ := hfinished.turn
    obtain ⟨saying, hsaying, hholds⟩ := hsaid.of_add hvalid
    have hquiet : t.batch = false := by
      have hsame := hfinished.batch
      rw [Bool.eq_false_iff.mpr hbatch] at hsame
      exact hsame.symm
    have hnamed : ¬ (id = "" ∨ name = "") := by
      intro hempty
      unfold callSaying at hsaying
      rw [if_pos hempty] at hsaying
      exact absurd hsaying (by simp)
    rw [not_or] at hnamed
    refine ⟨⟨hquiet, hnamed.1, hnamed.2⟩, ⟨said ++ [saying], ?_, ?_⟩, hfinished.active,
      hfinished.tools, hfinished.batch, hfinished.quiet, hfinished.idle, hfinished.nodup⟩
    · dsimp only
      rw [observeToolCall_eq]
      exact hholds
    · show (t.finishActive.segments ++ [_]).map Segment.saying = _
      rw [List.map_append, List.map_append, hsegments, List.map_singleton, List.map_singleton,
        ← hsaying]
      rfl

/-- A call is found by the digest of its id. -/
theorem findIdx_tools {calls : List StreamedCall}
    (h : List.Forall₂ (ToolTells sha256) tools calls)
    (hfree : ∀ call ∈ calls, digestOf sha256 call.id = digestOf sha256 id → call.id = id) :
    tools.findIdx? (·.id = digestOf sha256 id) = calls.findIdx? (·.id = id) := by
  induction h with
  | nil => rfl
  | @cons tool call tools calls hfirst hrest ih =>
    obtain ⟨hcall, hfree⟩ := List.forall_mem_cons.mp hfree
    have hiff : tool.id = digestOf sha256 id ↔ call.id = id := by
      rw [(field_eq_some.mp hfirst.id).1]
      exact ⟨hcall, fun heq => congrArg _ heq⟩
    rw [List.findIdx?_cons, List.findIdx?_cons, ih hfree, decide_eq_decide.mpr hiff]

/-- A fragment of a call that has been seen. -/
theorem extendTool {index : ℕ} {id arguments : String} (h : Tells sha256 s t)
    (hindex : t.calls.findIdx? (·.id = id) = some index)
    (hvalid : (s.extendTool index arguments).turn.valid = true) :
    Tells sha256 (s.extendTool index arguments) (t.extendCall id arguments) := by
  obtain ⟨hlt, hid, -⟩ := List.findIdx?_eq_some_iff_getElem.mp hindex
  have hat : t.calls[index]? = some t.calls[index] := List.getElem?_eq_getElem hlt
  have hid : t.calls[index].id = id := of_decide_eq_true hid
  unfold StreamingAssistantTurnCommitment.extendTool at hvalid ⊢
  cases htool : s.tools[index]? with
  | none =>
    rw [htool] at hvalid
    exact invalid_of_invalidate hvalid
  | some tool =>
    rw [htool] at hvalid
    dsimp only at hvalid ⊢
    cases hupdate : tool.arguments.update (bytes arguments) with
    | none =>
      rw [hupdate] at hvalid
      exact invalid_of_invalidate hvalid
    | some updated =>
      have htells : ToolTells sha256 tool t.calls[index] := by
        obtain ⟨hlength, hget⟩ := List.forall₂_iff_get.mp h.tools
        obtain ⟨hlt', heq⟩ := List.getElem?_eq_some_iff.mp htool
        have := hget index hlt' hlt
        rwa [List.get_eq_getElem, List.get_eq_getElem, heq] at this
      have honly : ∀ (j : ℕ) call, t.calls[j]? = some call → call.id = id → j = index := by
        intro j call hj hcall
        obtain ⟨hltj, heq⟩ := List.getElem?_eq_some_iff.mp hj
        have hltj' : j < (t.calls.map (·.id)).length := by rwa [List.length_map]
        have hlt' : index < (t.calls.map (·.id)).length := by rwa [List.length_map]
        refine (@List.Nodup.getElem_inj_iff _ _ h.nodup j hltj' index hlt').mp ?_
        rw [List.getElem_map, List.getElem_map, heq, hcall, hid]
      have hcalls : (t.extendCall id arguments).calls = t.calls.set index
          { t.calls[index] with arguments := t.calls[index].arguments ++ arguments } :=
        map_ite_eq_set hat hid honly
      have hids : (t.extendCall id arguments).calls.map (·.id) = t.calls.map (·.id) := by
        show (t.calls.map _).map _ = _
        rw [List.map_map]
        refine List.map_congr_left fun call _ => ?_
        show (if call.id = id then _ else call : StreamedCall).id = call.id
        split <;> rfl
      refine ⟨h.turn, h.active, ?_, h.batch, h.quiet, fun hbatch => ?_, hids ▸ h.nodup⟩
      · rw [hcalls]
        refine forall₂_set h.tools ?_ index
        exact ⟨htells.id, htells.name, htells.arguments.update hupdate, htells.named⟩
      · show t.calls.map _ = []
        rw [h.idle hbatch]
        rfl

/-- The first fragment of a call. -/
theorem beginTool {id name arguments : String} {d : FieldDigest} (h : Tells sha256 s t)
    (hbatch : t.batch = true) (hd : field sha256 id = some d) (hid : id ≠ "")
    (hnew : ∀ call ∈ t.calls, call.id ≠ id)
    (hvalid : (s.beginTool sha256 d name arguments).turn.valid = true) :
    name ≠ "" ∧ Tells sha256 (s.beginTool sha256 d name arguments)
      { t with calls := t.calls ++ [{ id, name, arguments }] } := by
  unfold StreamingAssistantTurnCommitment.beginTool at hvalid ⊢
  cases hname : field sha256 name with
  | none =>
    rw [hname] at hvalid
    exact invalid_of_invalidate hvalid
  | some nameDigest =>
    rw [hname] at hvalid
    dsimp only at hvalid ⊢
    split at hvalid
    · exact invalid_of_invalidate hvalid
    · rename_i hlen
      rw [if_neg hlen]
      have hnamed : name ≠ "" := by
        intro hempty
        rw [(field_eq_some.mp hname).1] at hlen
        exact hlen (digestOf_len_eq_zero.mpr hempty)
      cases hupdate : ({} : FieldAccumulator).update (bytes arguments) with
      | none =>
        rw [hupdate] at hvalid
        exact invalid_of_invalidate hvalid
      | some updated =>
        have harguments := FieldTells.empty.update hupdate
        refine ⟨hnamed, h.turn, h.active, ?_, h.batch, h.quiet, fun hfalse => ?_, ?_⟩
        · exact List.rel_append h.tools
            (List.Forall₂.cons ⟨hd, ⟨_, hname, rfl⟩, harguments, hid, hnamed⟩ List.Forall₂.nil)
        · exact absurd (hbatch.symm.trans hfalse) (by decide)
        · show ((t.calls ++ [_]).map StreamedCall.id).Nodup
          rw [List.map_append, List.map_singleton, ← List.concat_eq_append]
          refine h.nodup.concat fun hmem => ?_
          obtain ⟨call, hcall, heq⟩ := List.mem_map.mp hmem
          exact hnew call hcall heq

theorem valid_of_extendTool {index : ℕ} (h : (s.extendTool index arguments).turn.valid = true) :
    s.turn.valid = true := by
  unfold StreamingAssistantTurnCommitment.extendTool at h
  split at h
  · exact invalid_of_invalidate h
  · split at h
    · exact h
    · exact invalid_of_invalidate h

theorem valid_of_beginTool {d : FieldDigest} {name : String}
    (h : (s.beginTool sha256 d name arguments).turn.valid = true) : s.turn.valid = true := by
  unfold StreamingAssistantTurnCommitment.beginTool at h
  split at h
  · exact invalid_of_invalidate h
  · split at h
    · exact invalid_of_invalidate h
    · split at h
      · exact h
      · exact invalid_of_invalidate h

theorem valid_of_observeToolDelta {name : Option String}
    (h : (s.observeToolDelta sha256 id name arguments).turn.valid = true) :
    (s.finishActive sha256).turn.valid = true := by
  unfold StreamingAssistantTurnCommitment.observeToolDelta at h
  dsimp only at h
  split at h
  · exact invalid_of_invalidate h
  · split at h
    · exact invalid_of_invalidate h
    · split at h
      · have hvalid := valid_of_extendTool h
        exact hvalid
      · exact invalid_of_invalidate h
      · exact invalid_of_invalidate h
      · split at h
        · have hvalid := valid_of_beginTool h
          exact hvalid
        · exact invalid_of_invalidate h

/-- A fragment of a call, which ends the running field. -/
theorem observeToolDelta {id arguments : String} {name : Option String} (h : Tells sha256 s t)
    (hfree : ∀ call ∈ t.calls, digestOf sha256 call.id = digestOf sha256 id → call.id = id)
    (hvalid : (s.observeToolDelta sha256 id name arguments).turn.valid = true) :
    t.Follows (.toolCallDelta id name arguments [])
      ∧ Tells sha256 (s.observeToolDelta sha256 id name arguments)
        (t.observeCall id name arguments) := by
  have hfinished := h.finishActive (valid_of_observeToolDelta hvalid)
  have hfinished : Tells sha256 { s.finishActive sha256 with toolBatchStarted := true }
      { t.finishActive with batch := true } :=
    ⟨hfinished.turn, hfinished.active, hfinished.tools, rfl, fun _ => rfl,
      fun hfalse => absurd hfalse (by simp), hfinished.nodup⟩
  unfold StreamingAssistantTurnCommitment.observeToolDelta at hvalid ⊢
  unfold Transcript.observeCall Transcript.Follows
  cases hid : field sha256 id with
  | none =>
    rw [hid] at hvalid
    exact invalid_of_invalidate hvalid
  | some d =>
    rw [hid] at hvalid
    obtain ⟨rfl, -⟩ := field_eq_some.mp hid
    dsimp only at hvalid ⊢
    split at hvalid
    · exact invalid_of_invalidate hvalid
    · rename_i hlen
      have hnamed : id ≠ "" := fun hempty => hlen (digestOf_len_eq_zero.mpr hempty)
      rw [if_neg hlen]
      have hfound := findIdx_tools hfinished.tools hfree
      rw [hfound] at hvalid ⊢
      have hcalls : t.finishActive.calls = t.calls := rfl
      rw [hcalls] at hvalid ⊢
      cases hindex : t.calls.findIdx? (·.id = id) with
      | some index =>
        have hany : t.calls.any (·.id = id) = true := by
          rw [← List.findIdx?_isSome, hindex]
          rfl
        rw [hindex] at hvalid
        rw [if_pos hany, if_pos hany]
        cases name with
        | some name => exact invalid_of_invalidate hvalid
        | none => exact ⟨⟨rfl, hnamed, rfl⟩, hfinished.extendTool hindex hvalid⟩
      | none =>
        have hany : ¬ t.calls.any (·.id = id) = true := by
          rw [← List.findIdx?_isSome, hindex]
          exact Bool.false_ne_true
        rw [hindex] at hvalid
        rw [if_neg hany, if_neg hany]
        cases name with
        | none => exact invalid_of_invalidate hvalid
        | some name =>
          dsimp only at hvalid ⊢
          split at hvalid
          · rename_i hroom
            rw [if_pos hroom]
            have hlength : (s.finishActive sha256).tools.length = t.calls.length :=
              hfinished.tools.length_eq
            have hnew : ∀ call ∈ t.calls, call.id ≠ id := fun call hcall heq =>
              hany (List.any_eq_true.mpr ⟨call, hcall, decide_eq_true heq⟩)
            obtain ⟨hname, hbegun⟩ := hfinished.beginTool rfl hid hnamed hnew hvalid
            exact ⟨⟨rfl, hnamed, ⟨name, rfl, hname⟩, hlength ▸ hroom⟩, hbegun⟩
          · exact invalid_of_invalidate hvalid

/-- **What the accumulator follows, it tells.** -/
theorem observe {part : StreamPart} (h : Tells sha256 s t)
    (hfree : ∀ id name arguments metadata, part = .toolCallDelta id name arguments metadata →
      ∀ call ∈ t.calls, digestOf sha256 call.id = digestOf sha256 id → call.id = id)
    (hvalid : (s.observe sha256 part).turn.valid = true) :
    t.Follows part ∧ Tells sha256 (s.observe sha256 part) (t.step part) := by
  cases part with
  | textDelta text => exact h.updateField hvalid
  | toolCallDelta id name arguments metadata =>
    have hstep : s.observe sha256 (.toolCallDelta id name arguments metadata)
        = if metadata.isEmpty then s.observeToolDelta sha256 id name arguments
          else s.invalidate := rfl
    rw [hstep] at hvalid ⊢
    split at hvalid
    · rename_i hempty
      rw [if_pos hempty]
      obtain rfl := List.isEmpty_iff.mp hempty
      exact h.observeToolDelta (hfree id name arguments [] rfl) hvalid
    · exact invalid_of_invalidate hvalid
  | serverToolCall id name arguments serverName dynamic => exact h.serverToolCall hvalid
  | serverToolResult => exact invalid_of_invalidate hvalid
  | usage => exact ⟨trivial, h⟩
  | finish => exact ⟨trivial, h⟩
  | responseCompleted => exact ⟨trivial, h⟩
  | other part =>
    cases part with
    | textStart => exact h.beginField hvalid
    | textEnd => exact h.endField hvalid
    | reasoningStart => exact h.beginField hvalid
    | reasoningDelta => exact h.updateField hvalid
    | reasoningEnd => exact h.endField hvalid
    | file => exact invalid_of_invalidate hvalid
    | source => exact invalid_of_invalidate hvalid
    | responseStarted => exact ⟨trivial, h⟩

theorem valid_of_beginField {marker : Option String}
    (h : (s.beginField sha256 kind marker).turn.valid = true) : s.turn.valid = true := by
  unfold StreamingAssistantTurnCommitment.beginField at h
  split at h
  · exact invalid_of_invalidate h
  · exact valid_of_finishActive h

theorem valid_of_updateField {value : String}
    (h : (s.updateField sha256 kind value).turn.valid = true) : s.turn.valid = true := by
  unfold StreamingAssistantTurnCommitment.updateField at h
  split at h
  · exact valid_of_beginField (valid_of_extendActive h)
  · exact valid_of_extendActive h

theorem valid_of_endField {marker : String}
    (h : (s.endField sha256 kind marker).turn.valid = true) : s.turn.valid = true := by
  unfold StreamingAssistantTurnCommitment.endField at h
  split at h
  · exact invalid_of_invalidate h
  · exact valid_of_finishActive h

/-- An invalid turn stays invalid. -/
theorem valid_of_observe {part : StreamPart}
    (h : (s.observe sha256 part).turn.valid = true) : s.turn.valid = true := by
  cases part with
  | textDelta text => exact valid_of_updateField h
  | toolCallDelta id name arguments metadata =>
    have hstep : s.observe sha256 (.toolCallDelta id name arguments metadata)
        = if metadata.isEmpty then s.observeToolDelta sha256 id name arguments
          else s.invalidate := rfl
    rw [hstep] at h
    split at h
    · exact valid_of_finishActive (valid_of_observeToolDelta h)
    · exact invalid_of_invalidate h
  | serverToolCall id name arguments serverName dynamic =>
    have hstep : s.observe sha256 (.serverToolCall id name arguments serverName dynamic)
        = if (s.finishActive sha256).toolBatchStarted then (s.finishActive sha256).invalidate
          else { s.finishActive sha256 with
            turn := observeToolCall sha256 (s.finishActive sha256).turn id name arguments true
              dynamic } := rfl
    rw [hstep] at h
    split at h
    · exact invalid_of_invalidate h
    · dsimp only at h
      rw [observeToolCall_eq] at h
      exact valid_of_finishActive (TurnAccumulator.valid_of_add h).1
  | serverToolResult => exact invalid_of_invalidate h
  | usage => exact h
  | finish => exact h
  | responseCompleted => exact h
  | other part =>
    cases part with
    | textStart => exact valid_of_beginField h
    | textEnd => exact valid_of_endField h
    | reasoningStart => exact valid_of_beginField h
    | reasoningDelta => exact valid_of_updateField h
    | reasoningEnd => exact valid_of_endField h
    | file => exact invalid_of_invalidate h
    | source => exact invalid_of_invalidate h
    | responseStarted => exact h

theorem valid_of_foldl_finishTool {turn : TurnAccumulator}
    (h : (tools.foldl (StreamingAssistantTurnCommitment.finishTool sha256) turn).valid = true) :
    turn.valid = true := by
  induction tools generalizing turn with
  | nil => exact h
  | cons tool tools ih =>
    by_contra hnot
    have hvalid := ih h
    unfold StreamingAssistantTurnCommitment.finishTool at hvalid
    split at hvalid
    · exact absurd hvalid Bool.false_ne_true
    · unfold TurnAccumulator.addPart at hvalid
      rw [if_pos hnot] at hvalid
      exact hnot hvalid

theorem valid_of_finish {c : AssistantTurnCommitment} (h : s.finish sha256 = some c) :
    s.turn.valid = true :=
  valid_of_finishActive (valid_of_foldl_finishTool (TurnAccumulator.finish_valid h))

/-- Hashing a call at the end. -/
theorem finishTool_eq {tool : StreamingToolCall} {call : StreamedCall}
    (h : ToolTells sha256 tool call) (turn : TurnAccumulator) :
    StreamingAssistantTurnCommitment.finishTool sha256 turn tool
      = turn.add sha256 call.segment.saying := by
  obtain ⟨hid, hidShort⟩ := field_eq_some.mp h.id
  obtain ⟨d, hname, htool⟩ := h.name
  obtain ⟨rfl, hnameShort⟩ := field_eq_some.mp hname
  have hone : (1 : ℕ) < 256 ^ 8 := by decide
  have hsaying : call.segment.saying = some
      { part := { tag := 3, fields := [bytes call.id, bytes call.name, bytes call.arguments,
          [false.toNat], [false.toNat]] }
        meaningful := true } := by
    show callSaying _ _ _ _ _ = _
    unfold callSaying counted
    rw [if_neg (not_or.mpr h.named), if_pos]
    simp only [List.all_cons, List.all_nil, Bool.and_true, Bool.and_eq_true, decide_eq_true_eq,
      List.length_singleton]
    exact ⟨hidShort, hnameShort, h.arguments.short, hone, hone⟩
  unfold StreamingAssistantTurnCommitment.finishTool
  rw [hsaying, htool]
  rw [hid, h.arguments.finish]
  rfl

theorem foldl_finishTool {calls : List StreamedCall}
    (h : List.Forall₂ (ToolTells sha256) tools calls) (turn : TurnAccumulator) :
    tools.foldl (StreamingAssistantTurnCommitment.finishTool sha256) turn
      = ((calls.map StreamedCall.segment).map Segment.saying).foldl
        (TurnAccumulator.add sha256) turn := by
  induction h generalizing turn with
  | nil => rfl
  | cons hfirst _ ih =>
    rw [List.foldl_cons, finishTool_eq hfirst, ih]
    rfl

/-- **The commitment of a valid accumulator** is that of its transcript. -/
theorem finish {c : AssistantTurnCommitment} (h : Tells sha256 s t)
    (hc : s.finish sha256 = some c) :
    ∃ said : List Saying, t.all.map Segment.saying = said.map some
      ∧ said.length < 256 ^ 8 ∧ said.any (·.meaningful) = true
      ∧ c = commit sha256 (said.map (·.part)) := by
  have hvalid := TurnAccumulator.finish_valid hc
  have hfinish : s.finish sha256 = ((s.finishActive sha256).tools.foldl
      (StreamingAssistantTurnCommitment.finishTool sha256) (s.finishActive sha256).turn).finish
        sha256 := rfl
  have htools : (s.finishActive sha256).tools = s.tools := by
    unfold StreamingAssistantTurnCommitment.finishActive
    split <;> rfl
  rw [htools, foldl_finishTool h.tools] at hvalid
  have hfinished := h.finishActive (TurnAccumulator.valid_of_foldl_add hvalid)
  obtain ⟨said, hsaid, hsegments⟩ := hfinished.turn
  obtain ⟨more, hmore, hholds⟩ := hsaid.of_foldl hvalid
  rw [hfinish, htools, foldl_finishTool h.tools, hholds.finish] at hc
  split at hc
  · rename_i hany
    refine ⟨said ++ more, ?_, hholds.bound, hany, (Option.some.inj hc).symm⟩
    have hall : t.all = t.finishActive.segments ++ t.calls.map StreamedCall.segment := rfl
    rw [hall, List.map_append, List.map_append, hsegments, hmore]
  · exact absurd hc (by simp)

end Tells

/-! ## Valid runs -/

def idInputs (parts : List StreamPart) : List (List ℕ) :=
  parts.filterMap fun
    | .toolCallDelta id _ _ _ => some (assistantTurnFieldDomain ++ bytes id)
    | _ => none

theorem mem_idInputs {id name arguments metadata}
    (h : StreamPart.toolCallDelta id name arguments metadata ∈ parts) :
    assistantTurnFieldDomain ++ bytes id ∈ idInputs parts :=
  List.mem_filterMap.mpr ⟨_, h, rfl⟩

theorem transcript_concat (parts : List StreamPart) (part : StreamPart) :
    transcript (parts ++ [part]) = (transcript parts).step part := by
  unfold transcript
  rw [List.foldl_append]
  rfl

theorem calls_step {t : Transcript} {part : StreamPart}
    (h : id ∈ (t.step part).calls.map StreamedCall.id) :
    id ∈ t.calls.map StreamedCall.id
      ∨ ∃ name arguments metadata, part = .toolCallDelta id name arguments metadata := by
  have hupdate : ∀ kind value, (t.updateField kind value).calls = t.calls := by
    intro kind value
    unfold Transcript.updateField
    split
    · split <;> rfl
    · rfl
  cases part with
  | textDelta text => exact Or.inl (hupdate .text text ▸ h)
  | toolCallDelta id' name arguments metadata =>
    have hstep : (t.step (.toolCallDelta id' name arguments metadata)).calls
        = if t.calls.any (·.id = id') then (t.extendCall id' arguments).calls
          else t.calls ++ [{ id := id', name := name.getD "", arguments }] := by
      show (if t.calls.any (·.id = id') then Transcript.extendCall _ id' arguments
        else _ : Transcript).calls = _
      by_cases hany : t.calls.any (·.id = id') = true
      · rw [if_pos hany, if_pos hany]
        rfl
      · rw [if_neg hany, if_neg hany]
        rfl
    rw [hstep] at h
    split at h
    · obtain ⟨call, hcall, rfl⟩ := List.mem_map.mp h
      obtain ⟨old, hold, rfl⟩ := List.mem_map.mp hcall
      refine Or.inl (List.mem_map.mpr ⟨old, hold, ?_⟩)
      split <;> rfl
    · rw [List.map_append, List.mem_append] at h
      refine h.imp_right fun h => ?_
      obtain rfl : id = id' := by simpa using h
      exact ⟨_, _, _, rfl⟩
  | other part =>
    cases part with
    | reasoningDelta text kind => exact Or.inl (hupdate .reasoning text ▸ h)
    | _ => exact Or.inl h
  | _ => exact Or.inl h

theorem exists_delta_of_call (h : id ∈ (transcript parts).calls.map StreamedCall.id) :
    ∃ name arguments metadata, .toolCallDelta id name arguments metadata ∈ parts := by
  induction parts using List.reverseRecOn with
  | nil => exact absurd h (by simp [transcript])
  | append_singleton parts part ih =>
    rw [transcript_concat] at h
    rcases calls_step h with h | ⟨name, arguments, metadata, rfl⟩
    · obtain ⟨name, arguments, metadata, hmem⟩ := ih h
      exact ⟨name, arguments, metadata, List.mem_append_left _ hmem⟩
    · exact ⟨name, arguments, metadata, List.mem_append_right _ List.mem_cons_self⟩

/-- **The accumulator tells the transcript of a stream** it has followed. -/
theorem tells_of_valid (hfree : CollisionFree sha256 (idInputs parts))
    (hvalid : (parts.foldl (StreamingAssistantTurnCommitment.observe sha256) {}).turn.valid
      = true) :
    Tells sha256 (parts.foldl (StreamingAssistantTurnCommitment.observe sha256) {})
        (transcript parts)
      ∧ Along (fun pre part => (transcript pre).Follows part) parts := by
  induction parts using List.reverseRecOn with
  | nil => exact ⟨Tells.empty, along_nil⟩
  | append_singleton parts part ih =>
    rw [List.foldl_append] at hvalid ⊢
    rw [transcript_concat, along_concat]
    obtain ⟨htells, hfollows⟩ := ih
      (hfree.mono fun x hx => by
        unfold idInputs
        rw [List.filterMap_append]
        exact List.mem_append_left _ hx)
      (Tells.valid_of_observe hvalid)
    have hids : ∀ id name arguments metadata, part = .toolCallDelta id name arguments metadata →
        ∀ call ∈ (transcript parts).calls,
          digestOf sha256 call.id = digestOf sha256 id → call.id = id := by
      rintro id name arguments metadata rfl call hcall hdigest
      obtain ⟨_, _, _, hmem⟩ := exists_delta_of_call (List.mem_map_of_mem hcall)
      have heq := hfree _ (mem_idInputs (List.mem_append_left _ hmem)) _
        (mem_idInputs (List.mem_append_right _ List.mem_cons_self))
        (congrArg FieldDigest.digest hdigest)
      exact bytes_injective (List.append_cancel_left heq)
    obtain ⟨hpart, hnext⟩ := htells.observe hids hvalid
    exact ⟨hnext, hfollows, hpart⟩

/-- **A commitment of a stream** is that of its transcript. -/
theorem streamedCommitment_eq_some {c : AssistantTurnCommitment}
    (hfree : CollisionFree sha256 (idInputs parts))
    (hc : streamedCommitment sha256 parts = some c) :
    Along (fun pre part => (transcript pre).Follows part) parts
      ∧ ∃ said : List Saying, (transcript parts).all.map Segment.saying = said.map some
        ∧ said.length < 256 ^ 8 ∧ said.any (·.meaningful) = true
        ∧ c = commit sha256 (said.map (·.part)) := by
  obtain ⟨htells, hfollows⟩ := tells_of_valid hfree (Tells.valid_of_finish hc)
  exact ⟨hfollows, htells.finish hc⟩

end Tells

end BitRouter.Gateway
