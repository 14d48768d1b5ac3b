import BitRouter.Receipts.Evidence
import BitRouter.Tenancy.UsageEvidence

/-!
# Retained usage observations

`receipts/usage_evidence.rs`: the usage objects of an execution kept as
frames. The frames are a prefix of what was observed – once one is dropped,
for its number or its bytes, all later ones are – and a frame holds the
known fields only.
-/

namespace BitRouter.Receipts

open Tenancy Tenancy.UsageEvidence

/-- **The frames retained so far**, and what else the document of an
execution is made of. -/
structure Snapshot where
  frames : List Frame := []
  bytes : ℕ := 0
  dropped : ℕ := 0
  terminals : List AttemptId := []
  estimatorSeen : Bool := false
  estimate : Option Estimate := none
  parent : Option ExecutionId := none
  children : List ExecutionId := []

/-- The wire protocol of an outbound one. -/
def Protocol.wire : Protocol → UsageEvidence.Protocol
  | chatCompletions => .chatCompletions
  | responses => .responses
  | messages => .messages
  | decisions => .decisions

/-- The fields of a usage object: the containers and their name in the
source, and the dimension of each field. -/
abbrev Paths := List ((List String × String) × Dimension)

/-- The known fields of a protocol. -/
def mapping : UsageEvidence.Protocol → Paths
  | .chatCompletions => [
      (([], "prompt_tokens"), .inputTokens),
      (([], "completion_tokens"), .outputTokens),
      (([], "total_tokens"), .totalTokens),
      ((["prompt_tokens_details"], "cached_tokens"), .cacheReadTokens),
      ((["prompt_tokens_details"], "audio_tokens"), .inputAudioTokens),
      ((["prompt_tokens_details"], "image_tokens"), .inputImageTokens),
      ((["completion_tokens_details"], "reasoning_tokens"), .reasoningTokens),
      ((["completion_tokens_details"], "audio_tokens"), .outputAudioTokens),
      ((["completion_tokens_details"], "image_tokens"), .outputImageTokens)]
  | .responses => [
      (([], "input_tokens"), .inputTokens),
      (([], "output_tokens"), .outputTokens),
      (([], "total_tokens"), .totalTokens),
      ((["input_tokens_details"], "cached_tokens"), .cacheReadTokens),
      ((["input_tokens_details"], "audio_tokens"), .inputAudioTokens),
      ((["input_tokens_details"], "image_tokens"), .inputImageTokens),
      ((["output_tokens_details"], "reasoning_tokens"), .reasoningTokens),
      ((["output_tokens_details"], "audio_tokens"), .outputAudioTokens),
      ((["output_tokens_details"], "image_tokens"), .outputImageTokens)]
  | .messages => [
      (([], "input_tokens"), .inputTokens),
      (([], "output_tokens"), .outputTokens),
      (([], "cache_read_input_tokens"), .cacheReadTokens),
      (([], "cache_creation_input_tokens"), .cacheWriteTokens),
      ((["cache_creation"], "ephemeral_5m_input_tokens"), .cacheWriteFiveMinuteTokens),
      ((["cache_creation"], "ephemeral_1h_input_tokens"), .cacheWriteOneHourTokens),
      ((["server_tool_use"], "web_search_requests"), .webSearchRequests)]
  | .decisions => [
      (([], "input_tokens"), .inputTokens),
      (([], "output_tokens"), .outputTokens),
      (([], "total_tokens"), .totalTokens)]

/-! ## Extraction -/

/-- The known names in one object: the fields, and the containers. -/
def headOf (path : List String × String) : String := path.1.head?.getD path.2

/-- Distinct names, each at its first place. -/
def distinct (names : List String) : List String :=
  names.foldl (fun known name => if name ∈ known then known else known ++ [name]) []

def below (container : String) (paths : Paths) : Paths :=
  paths.filterMap (fun p => match p.1.1 with
    | head :: rest => if head = container then some ((rest, p.1.2), p.2) else none
    | [] => none)

def extractField (object : List (String × Json)) (frame : Frame)
    (path : (List String × String) × Dimension) : Frame :=
  if path.1.1 ≠ [] then frame
  else
    match IndexMap.get object path.1.2 with
    | none => frame
    | some value =>
      let n := number value
      { frame with
        invalid := frame.invalid || n.isNone
        quantities := frame.quantities ++ [⟨path.2, n⟩] }

/-- Whether an object has a member of an unknown name. -/
def extraneous (object : List (String × Json)) (known : List String) : Bool :=
  object.length > known.length || (object.take (known.length + 1)).any (fun e => e.1 ∉ known)

/-- The fields of an object without containers. -/
def extractFlat (paths : Paths) (frame : Frame) (value : Json) : Frame :=
  match value.asObject with
  | none => { frame with invalid := true }
  | some object =>
    let frame := paths.foldl (extractField object) frame
    { frame with
      unsupported := frame.unsupported || extraneous object (distinct (paths.map (headOf ·.1))) }

def extractContainer (paths : Paths) (object : List (String × Json)) (frame : Frame)
    (container : String) : Frame :=
  let inner := below container paths
  if inner = [] then frame
  else
    match IndexMap.get object container with
    | none => frame
    | some value => extractFlat inner frame value

/-- **The known fields of a usage object**, added to a frame. No known path
has more than one container. -/
def extract (value : Json) (paths : Paths) (frame : Frame) : Frame :=
  match value.asObject with
  | none => { frame with invalid := true }
  | some object =>
    let frame := paths.foldl (extractField object) frame
    let known := distinct (paths.map (headOf ·.1))
    let frame := known.foldl (extractContainer paths object) frame
    { frame with unsupported := frame.unsupported || extraneous object known }

/-! ### What extraction leaves -/

theorem attemptId_extractField (object : List (String × Json)) (frame : Frame)
    (path : (List String × String) × Dimension) :
    (extractField object frame path).attemptId = frame.attemptId := by
  unfold extractField
  split
  · rfl
  · split <;> rfl

theorem attemptId_foldl {α : Type} (f : Frame → α → Frame)
    (hf : ∀ frame x, (f frame x).attemptId = frame.attemptId) (xs : List α) (frame : Frame) :
    (xs.foldl f frame).attemptId = frame.attemptId := by
  induction xs generalizing frame with
  | nil => rfl
  | cons x xs ih => exact (ih (f frame x)).trans (hf frame x)

theorem attemptId_extractContainer (paths : Paths) (object : List (String × Json)) (frame : Frame)
    (container : String) :
    (extractContainer paths object frame container).attemptId = frame.attemptId := by
  unfold extractContainer
  dsimp only
  split
  · rfl
  · split
    · rfl
    · unfold extractFlat
      split
      · rfl
      · exact attemptId_foldl _ (attemptId_extractField _) _ _

/-- A frame stays one of its attempt. -/
theorem attemptId_extract (value : Json) (paths : Paths) (frame : Frame) :
    (extract value paths frame).attemptId = frame.attemptId := by
  unfold extract
  split
  · rfl
  · dsimp only
    rw [attemptId_foldl _ (attemptId_extractContainer paths _),
      attemptId_foldl _ (attemptId_extractField _)]

/-! ## Retention -/

namespace Snapshot

/-- Bound on the bytes of the retained frames. -/
def maxFrameBytes : ℕ := 192 * 1024

def dropFrame (s : Snapshot) : Snapshot := { s with dropped := min (s.dropped + 1) maxInteger }

/-- The frame of a usage object. -/
def frameOf (s : Snapshot) (attempt : AttemptId) (protocol : UsageEvidence.Protocol)
    (source : UsageEvidence.Source) (original : Json) : Frame :=
  extract original (mapping protocol)
    { sequence := s.frames.length
      attemptId := attempt
      protocol := protocol
      source := source
      semantics := if protocol = .decisions then .unknown else .snapshot
      quantities := []
      unsupported := false
      invalid := false }

/-- **Observe one usage object.** A null usage of a chat chunk marks
absence. -/
def observe (attempt : AttemptId) (protocol : UsageEvidence.Protocol)
    (source : UsageEvidence.Source) (original : Json) (s : Snapshot) : Snapshot :=
  if protocol = .chatCompletions ∧ source = .chatChunk ∧ original.isNull then s
  else if 0 < s.dropped ∨ maxFrames ≤ s.frames.length
      ∨ maxAttemptFrames ≤ (s.frames.filter (fun f => f.attemptId = attempt)).length then
    s.dropFrame
  else
    let frame := s.frameOf attempt protocol source original
    let size := byteLength frame.toJson
    if maxFrameBytes < s.bytes + size then s.dropFrame
    else { s with bytes := s.bytes + size, frames := s.frames ++ [frame] }

/-- **An observation appends its frame, or drops it.** -/
theorem observe_frames (attempt : AttemptId) (protocol : UsageEvidence.Protocol)
    (source : UsageEvidence.Source) (original : Json) (s : Snapshot) :
    (s.observe attempt protocol source original).frames = s.frames
      ∨ (s.observe attempt protocol source original).frames
        = s.frames ++ [s.frameOf attempt protocol source original] := by
  unfold observe
  split
  · exact Or.inl rfl
  · split
    · exact Or.inl rfl
    · dsimp only
      split
      · exact Or.inl rfl
      · exact Or.inr rfl

end Snapshot

end BitRouter.Receipts
