import BitRouter.Gateway.Collect
import BitRouter.Gateway.Commitment

/-!
# Refusals of a conversion

`conversion.rs`: what a wire cannot carry is refused with a report of the
issues found, and never dropped. The parts of a stream that no other wire
has a slot for are native reasoning items and the continuity tokens of
Google, which only Chat Completions carries.
-/

namespace BitRouter.Gateway

open Ai

/-- The category of a wire. -/
inductive ConversionProtocol
  | decisions
  | chatCompletions
  | responses
  | messages
  | custom
  deriving DecidableEq, Repr

def ConversionProtocol.of : ApiProtocol → ConversionProtocol
  | .chatCompletions => chatCompletions
  | .responses => responses
  | .decisions => decisions
  | .messages => messages
  | .custom _ => custom

/-- Where a conversion takes place. -/
inductive ConversionStage
  | requestIngress
  | requestProjection
  | responseEncoding
  | streamEncoding
  deriving DecidableEq, Repr

/-- Why it loses something. -/
inductive ConversionReason
  | nativeReasoningUnrepresentable
  | nativeContinuityUnrepresentable
  deriving DecidableEq, Repr

/-- What is lost by it. -/
inductive ConversionEffect
  | equivalentRepresentation
  | replayAuthority
  | taskSemantics
  | unknown
  deriving DecidableEq, Repr

/-- What is done about it. -/
inductive ConversionDisposition
  | allow
  | rejectRequest
  | rejectReplay
  | excludeTarget
  | failOutput
  deriving DecidableEq, Repr

inductive ConversionLocation
  | streamReasoning
  | streamToolCall
  deriving DecidableEq, Repr

/-- One thing that is lost. -/
structure ConversionIssue where
  stage : ConversionStage
  protocol : ConversionProtocol
  location : ConversionLocation
  reason : ConversionReason
  effect : ConversionEffect
  disposition : ConversionDisposition
  deriving DecidableEq, Repr

/-- All that is lost. -/
structure ConversionReport where
  issues : List ConversionIssue := []
  admitted : List ConversionIssue := []
  deriving DecidableEq, Repr

/-- Why a part is not encoded. -/
inductive EncoderError
  | incompatible (report : ConversionReport)
  | model (error : ModelError)

/-- Reject when any rule has refused the conversion. -/
def ConversionReport.requireAdmitted (report : ConversionReport) : Except ConversionReport Unit :=
  ensure (report.issues = []) report

def hasGoogleContinuity (metadata : ProviderMetadata) : Bool :=
  (providerNamespace metadata "google").any fun fields =>
    (IndexMap.get fields "thoughtSignature").isSome

def rejectGoogleContinuityPart (part : StreamPart) (protocol : ApiProtocol) :
    Except ConversionReport Unit :=
  match part with
  | .toolCallDelta _ _ _ metadata =>
    if protocol ≠ .chatCompletions ∧ hasGoogleContinuity metadata then
      ConversionReport.requireAdmitted {
        issues := [{
          stage := .streamEncoding
          protocol := .of protocol
          location := .streamToolCall
          reason := .nativeContinuityUnrepresentable
          effect := .replayAuthority
          disposition := .failOutput }] }
    else .ok ()
  | _ => .ok ()

/-- **Native reasoning has no slot on another wire.** -/
def rejectUnrepresentableNativeReasoningPart (part : StreamPart) (protocol : ApiProtocol) :
    Except ConversionReport Unit := do
  rejectGoogleContinuityPart part protocol
  match part with
  | .other (.reasoningEnd _ _ (some _)) =>
    ConversionReport.requireAdmitted {
      issues := [{
        stage := .streamEncoding
        protocol := .of protocol
        location := .streamReasoning
        reason := .nativeReasoningUnrepresentable
        effect := .taskSemantics
        disposition := .failOutput }] }
  | _ => .ok ()

end BitRouter.Gateway
