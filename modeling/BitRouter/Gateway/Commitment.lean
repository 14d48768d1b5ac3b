import BitRouter.Ai.Types
import BitRouter.Data.Digest
import BitRouter.Data.StrMap

/-!
# Commitments to an assistant turn

A continuation is bound to the assistant turn it continues by a commitment: a
digest of the texts, reasonings and tool calls of the turn. A turn is hashed
part by part, each part a tag and the digests of its fields, so that a stream
can be committed to without being kept.

What `assistantTurnCommitment` commits to is the list of parts of its content
(`assistantPart`). It answers exactly when every block has a part and one of
them says something, and then its answer is `commit` of the parts
(`assistantTurnCommitment_eq_some`). Two turns with one commitment have the
same parts, as long as SHA-256 – a parameter – has no collision among what was
hashed (`commit_inj`).
-/

namespace BitRouter.Gateway

open Ai
open Registry (Value)

/-! ## Fields -/

def assistantTurnFieldDomain : List ℕ := bytes "bitrouter.assistant-turn.field.v1"

def assistantTurnCommitmentDomain : List ℕ := bytes "bitrouter.assistant-turn.v1"

/-- A field: its length, and its hash. -/
structure FieldDigest where
  len : ℕ
  digest : List ℕ
deriving DecidableEq, Repr

/-- `AssistantTurnCommitment`, whose text is the digest in hexadecimal. -/
structure AssistantTurnCommitment where
  digest : List ℕ
deriving DecidableEq, Repr

section Hash

variable (sha256 : List ℕ → List ℕ)

def FieldDigest.fromBytes (value : List ℕ) : Option FieldDigest :=
  if value.length < 256 ^ 8 then
    some { len := value.length, digest := sha256 (assistantTurnFieldDomain ++ value) }
  else none

def field (value : String) : Option FieldDigest := FieldDigest.fromBytes sha256 (bytes value)

def boolField (value : Bool) : FieldDigest :=
  { len := 1, digest := sha256 (assistantTurnFieldDomain ++ [value.toNat]) }

/-- A field that grows: what its hasher has read, and the length of the value. -/
structure FieldAccumulator where
  hasher : List ℕ := assistantTurnFieldDomain
  len : ℕ := 0

/-- One more fragment, unless the length would not fit. -/
def FieldAccumulator.update (value : FieldAccumulator) (data : List ℕ) : Option FieldAccumulator :=
  if value.len + data.length < 256 ^ 8 then
    some { hasher := value.hasher ++ data, len := value.len + data.length }
  else none

def FieldAccumulator.finish (value : FieldAccumulator) : FieldDigest :=
  { len := value.len, digest := sha256 value.hasher }

/-! ## Turns -/

/-- The hash of a turn so far. -/
structure TurnAccumulator where
  hasher : List ℕ := assistantTurnCommitmentDomain
  partCount : ℕ := 0
  meaningful : Bool := false
  valid : Bool := true

namespace TurnAccumulator

/-- Nothing is committed to. -/
def invalidate (turn : TurnAccumulator) : TurnAccumulator := { turn with valid := false }

/-- One part more. -/
def addPart (turn : TurnAccumulator) (tag : ℕ) (fields : List FieldDigest) (meaningful : Bool) :
    TurnAccumulator :=
  if ¬ turn.valid then turn
  else if turn.partCount + 1 < 256 ^ 8 then
    { turn with
      hasher := turn.hasher ++ tag :: (beBytes 8 fields.length
        ++ fields.flatMap fun field => beBytes 8 field.len ++ field.digest)
      partCount := turn.partCount + 1
      meaningful := turn.meaningful || meaningful }
  else turn.invalidate

/-- The commitment, if it means something. -/
def finish (turn : TurnAccumulator) : Option AssistantTurnCommitment :=
  if ¬ turn.valid ∨ ¬ turn.meaningful ∨ turn.partCount = 0 then none
  else some { digest := sha256 (turn.hasher ++ beBytes 8 turn.partCount) }

end TurnAccumulator

/-- The namespace of a provider in some metadata. -/
def providerNamespace (metadata : ProviderMetadata) (providerId : String) :
    Option (List (String × Value)) :=
  (IndexMap.get metadata providerId).bind Value.asObject

/-- Whether a text is one of the phased messages of the Responses protocol. -/
def isPhased (metadata : ProviderMetadata) : Bool :=
  ((providerNamespace metadata "openai").bind (IndexMap.get · "messagePhase")).isSome

def clientToolMetadataPresent (metadata : ProviderMetadata) : Bool :=
  (providerNamespace metadata "openai").any fun fields =>
    (IndexMap.get fields "namespace").isSome || (IndexMap.get fields "type").isSome

def observeToolCall (turn : TurnAccumulator) (id name arguments : String)
    (providerExecuted dynamic : Bool) : TurnAccumulator :=
  match field sha256 id, field sha256 name, field sha256 arguments with
  | some id, some name, some arguments =>
    if id.len = 0 ∨ name.len = 0 then turn.invalidate
    else turn.addPart 3 [id, name, arguments, boolField sha256 providerExecuted,
      boolField sha256 dynamic] true
  | _, _, _ => turn.invalidate

/-- A text (tag 1) or a reasoning (tag 2). -/
def observeText (turn : TurnAccumulator) (tag : ℕ) (text : String) : TurnAccumulator :=
  match field sha256 text with
  | some value => turn.addPart tag [value] (text ≠ "")
  | none => turn.invalidate

/-- A content block of the turn. -/
def observeContent (turn : TurnAccumulator) : Content → TurnAccumulator
  | .text text metadata =>
    if isPhased metadata then turn.invalidate else observeText sha256 turn 1 text
  | .other (.reasoning text _ _) => observeText sha256 turn 2 text
  | .toolCall id name arguments providerExecuted dynamic metadata =>
    if clientToolMetadataPresent metadata then turn.invalidate
    else observeToolCall sha256 turn id name arguments providerExecuted dynamic
  | _ => turn.invalidate

/-- The commitment to a whole reply. -/
def assistantTurnCommitment (content : List Content) : Option AssistantTurnCommitment :=
  (content.foldl (observeContent sha256) {}).finish sha256

/-! ## The parts of a turn -/

/-- A part, and whether it says something. -/
structure Saying where
  part : Part
  meaningful : Bool

def Saying.digests (saying : Saying) : List FieldDigest :=
  saying.part.fields.map fun value =>
    { len := value.length, digest := sha256 (assistantTurnFieldDomain ++ value) }

end Hash

def counted (saying : Saying) : Option Saying :=
  if saying.part.fields.all fun value => value.length < 256 ^ 8 then some saying else none

/-- A text of a turn, or a reasoning. -/
def textSaying (tag : ℕ) (text : String) : Option Saying :=
  counted { part := { tag, fields := [bytes text] }, meaningful := text ≠ "" }

def callSaying (id name arguments : String) (providerExecuted dynamic : Bool) : Option Saying :=
  if id = "" ∨ name = "" then none
  else counted
    { part := { tag := 3, fields := [bytes id, bytes name, bytes arguments,
        [providerExecuted.toNat], [dynamic.toNat]] }
      meaningful := true }

/-- **What a block adds to a turn**, if it can be committed to. -/
def assistantPart : Content → Option Saying
  | .text text metadata => if isPhased metadata then none else textSaying 1 text
  | .other (.reasoning text _ _) => textSaying 2 text
  | .toolCall id name arguments providerExecuted dynamic metadata =>
    if clientToolMetadataPresent metadata then none
    else callSaying id name arguments providerExecuted dynamic
  | _ => none

/-- **The commitment to some parts.** -/
def commit (sha256 : List ℕ → List ℕ) (parts : List Part) : AssistantTurnCommitment :=
  { digest := sha256 (assistantTurnCommitmentDomain
      ++ encodeParts sha256 assistantTurnFieldDomain parts) }

/-- What is hashed for a commitment to some parts. -/
def commitInputs (sha256 : List ℕ → List ℕ) (parts : List Part) : List (List ℕ) :=
  (assistantTurnCommitmentDomain ++ encodeParts sha256 assistantTurnFieldDomain parts)
    :: fieldInputs assistantTurnFieldDomain parts

/-! ## What an accumulator holds -/

variable {c : AssistantTurnCommitment}

section Holds

variable {sha256 : List ℕ → List ℕ}

namespace TurnAccumulator

/-- Add what a block says. -/
def add (sha256 : List ℕ → List ℕ) (turn : TurnAccumulator) : Option Saying → TurnAccumulator
  | some saying => turn.addPart saying.part.tag (saying.digests sha256) saying.meaningful
  | none => turn.invalidate

/-- **A valid accumulator has hashed a list of parts.** -/
structure Holds (sha256 : List ℕ → List ℕ) (turn : TurnAccumulator) (said : List Saying) :
    Prop where
  valid : turn.valid = true
  hasher : turn.hasher = assistantTurnCommitmentDomain
    ++ (said.map (·.part)).flatMap (encodePart sha256 assistantTurnFieldDomain)
  count : turn.partCount = said.length
  meaningful : turn.meaningful = said.any (·.meaningful)
  bound : said.length < 256 ^ 8

theorem Holds.empty : Holds sha256 {} [] :=
  ⟨rfl, (List.append_nil _).symm, rfl, rfl, by decide⟩

variable {turn : TurnAccumulator} {said : List Saying}

theorem Holds.add_some (h : turn.Holds sha256 said) (saying : Saying)
    (hbound : said.length + 1 < 256 ^ 8) :
    (turn.add sha256 (some saying)).Holds sha256 (said ++ [saying]) := by
  have hadd : turn.add sha256 (some saying) = { turn with
      hasher := turn.hasher ++ saying.part.tag :: (beBytes 8 (saying.digests sha256).length
        ++ (saying.digests sha256).flatMap fun field => beBytes 8 field.len ++ field.digest)
      partCount := turn.partCount + 1
      meaningful := turn.meaningful || saying.meaningful } := by
    show turn.addPart _ _ _ = _
    unfold addPart
    rw [if_neg (by simp [h.valid]), if_pos (by rw [h.count]; exact hbound)]
  have hencode : encodePart sha256 assistantTurnFieldDomain saying.part
      = saying.part.tag :: (beBytes 8 (saying.digests sha256).length
        ++ (saying.digests sha256).flatMap fun field => beBytes 8 field.len ++ field.digest) := by
    unfold encodePart Saying.digests encodeField
    rw [List.length_map, List.flatMap_map]
  rw [hadd]
  refine ⟨h.valid, ?_, ?_, ?_, ?_⟩
  · show turn.hasher ++ _ = _
    rw [h.hasher, List.map_append, List.flatMap_append, List.map_singleton,
      List.flatMap_singleton, hencode, List.append_assoc]
  · show turn.partCount + 1 = _
    rw [h.count, List.length_append, List.length_singleton]
  · show (turn.meaningful || saying.meaningful) = _
    rw [h.meaningful, List.any_append, List.any_cons, List.any_nil, Bool.or_false]
  · rw [List.length_append, List.length_singleton]
    exact hbound

/-- An accumulator that is still valid was valid, and had room. -/
theorem valid_of_add {said : Option Saying} (h : (turn.add sha256 said).valid = true) :
    turn.valid = true ∧ ∃ saying, said = some saying ∧ turn.partCount + 1 < 256 ^ 8 := by
  cases said with
  | none => exact absurd h Bool.false_ne_true
  | some saying =>
    have hadd : (turn.addPart saying.part.tag (saying.digests sha256) saying.meaningful).valid
        = true := h
    unfold addPart at hadd
    split at hadd
    · rename_i hvalid
      exact absurd hadd hvalid
    · rename_i hvalid
      split at hadd
      · rename_i hroom
        exact ⟨not_not.mp hvalid, saying, rfl, hroom⟩
      · exact absurd hadd Bool.false_ne_true

theorem Holds.of_add (h : turn.Holds sha256 said) {said' : Option Saying}
    (hvalid : (turn.add sha256 said').valid = true) :
    ∃ saying, said' = some saying ∧ (turn.add sha256 said').Holds sha256 (said ++ [saying]) := by
  obtain ⟨-, saying, rfl, hroom⟩ := valid_of_add hvalid
  exact ⟨saying, rfl, h.add_some saying (h.count ▸ hroom)⟩

theorem valid_of_foldl_add {said : List (Option Saying)}
    (h : (said.foldl (add sha256) turn).valid = true) : turn.valid = true := by
  induction said generalizing turn with
  | nil => exact h
  | cons saying said ih => exact (valid_of_add (ih h)).1

theorem Holds.of_foldl (h : turn.Holds sha256 said) {said' : List (Option Saying)}
    (hvalid : (said'.foldl (add sha256) turn).valid = true) :
    ∃ more, said' = more.map some
      ∧ (said'.foldl (add sha256) turn).Holds sha256 (said ++ more) := by
  induction said' generalizing turn said with
  | nil => exact ⟨[], rfl, by rw [List.append_nil]; exact h⟩
  | cons saying said' ih =>
    obtain ⟨saying, rfl, hadd⟩ := h.of_add (valid_of_foldl_add hvalid)
    obtain ⟨more, rfl, hmore⟩ := ih hadd hvalid
    exact ⟨saying :: more, rfl, by rw [List.append_cons]; exact hmore⟩

theorem Holds.foldl (h : turn.Holds sha256 said) (more : List Saying)
    (hbound : (said ++ more).length < 256 ^ 8) :
    ((more.map some).foldl (add sha256) turn).Holds sha256 (said ++ more) := by
  induction more generalizing turn said with
  | nil => rw [List.append_nil]; exact h
  | cons saying more ih =>
    rw [List.append_cons] at hbound ⊢
    refine ih (h.add_some saying (Nat.lt_of_le_of_lt ?_ hbound)) hbound
    rw [List.length_append, List.length_append, List.length_singleton]
    exact Nat.le_add_right _ _

/-- The answer of an accumulator. -/
theorem Holds.finish (h : turn.Holds sha256 said) :
    turn.finish sha256
      = if said.any (·.meaningful) then some (commit sha256 (said.map (·.part))) else none := by
  unfold TurnAccumulator.finish
  by_cases hany : said.any (·.meaningful) = true
  · have hpos : turn.partCount ≠ 0 := by
      rw [h.count]
      rintro hzero
      rw [List.length_eq_zero_iff.mp hzero] at hany
      exact absurd hany Bool.false_ne_true
    rw [if_neg (by simp [h.valid, h.meaningful, hany, hpos]), if_pos hany, h.hasher, h.count]
    unfold commit encodeParts
    rw [List.append_assoc, List.length_map]
  · rw [if_pos (by simp only [h.meaningful, hany]; simp), if_neg hany]

theorem finish_valid (h : turn.finish sha256 = some c) :
    turn.valid = true := by
  unfold TurnAccumulator.finish at h
  split at h
  · exact absurd h (by simp)
  · rename_i hnone
    exact not_not.mp (fun hvalid => hnone (Or.inl hvalid))

/-- **An accumulator answers for a list of parts.** -/
theorem foldl_add_finish {said : List (Option Saying)} :
    (said.foldl (add sha256) {}).finish sha256 = some c ↔
      ∃ said' : List Saying, said = said'.map some ∧ said'.length < 256 ^ 8
        ∧ said'.any (·.meaningful) = true ∧ c = commit sha256 (said'.map (·.part)) := by
  constructor
  · intro h
    obtain ⟨said', rfl, hholds⟩ := Holds.empty.of_foldl (finish_valid h)
    rw [hholds.finish] at h
    split at h
    · rename_i hany
      exact ⟨said', rfl, hholds.bound, hany, (Option.some.inj h).symm⟩
    · exact absurd h (by simp)
  · rintro ⟨said', rfl, hbound, hany, rfl⟩
    have hempty : Holds sha256 {} [] := Holds.empty
    have hholds := hempty.foldl said' hbound
    rw [hholds.finish]
    exact if_pos hany

end TurnAccumulator

/-! ## Commitments of content -/

theorem field_eq (value : String) :
    field sha256 value = if (bytes value).length < 256 ^ 8 then
      some { len := (bytes value).length
             digest := sha256 (assistantTurnFieldDomain ++ bytes value) }
    else none := rfl

theorem observeText_eq (turn : TurnAccumulator) (tag : ℕ) (text : String) :
    observeText sha256 turn tag text = turn.add sha256 (textSaying tag text) := by
  unfold observeText textSaying counted
  rw [field_eq]
  by_cases hlen : (bytes text).length < 256 ^ 8
  · rw [if_pos hlen, if_pos (by simpa using hlen)]
    rfl
  · rw [if_neg hlen, if_neg (by simpa using hlen)]
    rfl

theorem observeToolCall_eq (turn : TurnAccumulator) (id name arguments : String)
    (providerExecuted dynamic : Bool) :
    observeToolCall sha256 turn id name arguments providerExecuted dynamic
      = turn.add sha256 (callSaying id name arguments providerExecuted dynamic) := by
  unfold observeToolCall callSaying counted
  rw [field_eq, field_eq, field_eq]
  have hone : (1 : ℕ) < 256 ^ 8 := by decide
  by_cases hshort : (bytes id).length < 256 ^ 8 ∧ (bytes name).length < 256 ^ 8
      ∧ (bytes arguments).length < 256 ^ 8
  · obtain ⟨hid, hname, harguments⟩ := hshort
    rw [if_pos hid, if_pos hname, if_pos harguments]
    dsimp only
    have hiff : ((bytes id).length = 0 ∨ (bytes name).length = 0) ↔ (id = "" ∨ name = "") := by
      rw [List.length_eq_zero_iff, List.length_eq_zero_iff, bytes_eq_nil, bytes_eq_nil]
    by_cases hempty : id = "" ∨ name = ""
    · rw [if_pos (hiff.mpr hempty), if_pos hempty]
      rfl
    · have hall : [bytes id, bytes name, bytes arguments, [providerExecuted.toNat],
          [dynamic.toNat]].all (fun value => value.length < 256 ^ 8) = true := by
        simp only [List.all_cons, List.all_nil, Bool.and_true, Bool.and_eq_true,
          decide_eq_true_eq, List.length_singleton]
        exact ⟨hid, hname, harguments, hone, hone⟩
      rw [if_neg (mt hiff.mp hempty), if_neg hempty, if_pos hall]
      rfl
  · have hnone : (if id = "" ∨ name = "" then none
        else if [bytes id, bytes name, bytes arguments, [providerExecuted.toNat],
            [dynamic.toNat]].all (fun value => value.length < 256 ^ 8) then
          some ({ part := { tag := 3, fields := [bytes id, bytes name, bytes arguments,
            [providerExecuted.toNat], [dynamic.toNat]] }, meaningful := true } : Saying)
        else none) = none := by
      split
      · rfl
      · rw [if_neg]
        intro hall
        simp only [List.all_cons, Bool.and_eq_true, decide_eq_true_eq] at hall
        exact hshort ⟨hall.1, hall.2.1, hall.2.2.1⟩
    rw [hnone]
    split
    · rename_i hid hname harguments
      refine absurd ⟨?_, ?_, ?_⟩ hshort
      · exact Decidable.byContradiction fun hlong => by rw [if_neg hlong] at hid; cases hid
      · exact Decidable.byContradiction fun hlong => by rw [if_neg hlong] at hname; cases hname
      · exact Decidable.byContradiction fun hlong => by
          rw [if_neg hlong] at harguments; cases harguments
    · rfl

theorem observeContent_eq (turn : TurnAccumulator) (content : Content) :
    observeContent sha256 turn content = turn.add sha256 (assistantPart content) := by
  unfold observeContent assistantPart
  split
  · split
    · rfl
    · exact observeText_eq turn 1 _
  · exact observeText_eq turn 2 _
  · split
    · rfl
    · exact observeToolCall_eq turn _ _ _ _ _
  · rfl

/-- **What a commitment is of.** -/
theorem assistantTurnCommitment_eq_some {content : List Content} :
    assistantTurnCommitment sha256 content = some c ↔
      ∃ said : List Saying, content.map assistantPart = said.map some ∧ said.length < 256 ^ 8
        ∧ said.any (·.meaningful) = true ∧ c = commit sha256 (said.map (·.part)) := by
  have hfold : content.foldl (observeContent sha256) {}
      = (content.map assistantPart).foldl (TurnAccumulator.add sha256) {} := by
    rw [List.foldl_map]
    exact congrArg (fun f => List.foldl f _ content)
      (funext fun turn => funext fun block => observeContent_eq turn block)
  unfold assistantTurnCommitment
  rw [hfold, TurnAccumulator.foldl_add_finish]

end Holds

/-! ## Equal commitments -/

theorem bounded_of_counted {saying saying' : Saying} (h : counted saying = some saying')
    (hcount : saying.part.fields.length < 256 ^ 8) : saying'.part.Bounded := by
  unfold counted at h
  split at h
  · rename_i hall
    obtain rfl := Option.some.inj h
    refine ⟨hcount, fun value hvalue => ?_⟩
    exact of_decide_eq_true (List.all_eq_true.mp hall value hvalue)
  · exact absurd h (by simp)

theorem bounded_of_assistantPart {content : Content} {saying : Saying}
    (h : assistantPart content = some saying) : saying.part.Bounded := by
  unfold assistantPart at h
  split at h
  · split at h
    · exact absurd h (by simp)
    · exact bounded_of_counted h (by simp)
  · exact bounded_of_counted h (by simp)
  · split at h
    · exact absurd h (by simp)
    · unfold callSaying at h
      split at h
      · exact absurd h (by simp)
      · exact bounded_of_counted h (by simp)
  · exact absurd h (by simp)

/-- **A commitment determines the parts it is of.** -/
theorem commit_inj {sha256 : List ℕ → List ℕ} (huniform : Uniform sha256 32) {ps qs : List Part}
    (hps : ∀ p ∈ ps, p.Bounded) (hqs : ∀ q ∈ qs, q.Bounded)
    (hfree : CollisionFree sha256 (commitInputs sha256 ps ++ commitInputs sha256 qs))
    (h : commit sha256 ps = commit sha256 qs) : ps = qs := by
  have hdigest := congrArg AssistantTurnCommitment.digest h
  have hinput := hfree _ (List.mem_append_left _ List.mem_cons_self) _
    (List.mem_append_right _ List.mem_cons_self) hdigest
  refine encodeParts_inj huniform hps hqs (hfree.mono fun x hx => ?_)
    (List.append_cancel_left hinput)
  rw [fieldInputs_append, List.mem_append] at hx
  rw [List.mem_append]
  exact hx.imp (List.mem_cons_of_mem _) (List.mem_cons_of_mem _)

end BitRouter.Gateway
