import BitRouter.Gateway.Commitment
import Mathlib.Data.List.SplitBy
import Mathlib.Data.List.TakeWhile

/-!
# The causal prefix of a conversation

A continuation names the visible history it continues by a rolling digest: one
step for each turn of the history, from the digest of the history before and
the commitment to the turn. What a turn is follows from the content of the
messages and not from how a client has split it: adjacent assistant messages
are one turn, and so are adjacent tool messages (`foldCausalMessages`).

`extendCausalPrefix` makes the root that is stored with a delivered turn, and
`findUniqueCausalPrefix` looks for a stored root in the history a client sends
with its next request: the root has to be met once, at the last assistant turn.

The fold is first turned into the list of the turns it goes through
(`causalTurns`), with what each of them says.
-/

namespace BitRouter.Gateway

open Ai

/-! ## Roles -/

def causalContentRole (messageRole : Role) : Content → Option Role
  | .text _ _ => some messageRole
  | .other (.reasoning _ _ _) | .toolCall .. => some .assistant
  | .toolResult .. => some .tool
  | _ => none

/-- The role of a message is that of all of its blocks. -/
def causalMessageRole (message : Message) : Option Role :=
  if message.role = .system then some .system
  else
    match message.content with
    | [] => none
    | first :: _ => do
      let role ← causalContentRole message.role first
      if message.content.any fun content => causalContentRole message.role content ≠ some role then
        none
      else some role

section Fold

variable (sha256 : List ℕ → List ℕ)

/-- A result is hashed with the kind of its output. -/
def observeToolResult (turn : TurnAccumulator) (callId outputTag outputValue : String)
    (dynamic : Bool) : TurnAccumulator :=
  match field sha256 callId, field sha256 outputTag, field sha256 outputValue with
  | some callId, some outputTag, some outputValue =>
    if callId.len = 0 then turn.invalidate
    else turn.addPart 4 [callId, outputTag, outputValue, boolField sha256 dynamic] true
  | _, _, _ => turn.invalidate

def outputText : ToolResultOutput → Option (String × String)
  | .text value => some ("text", value)
  | .errorText value => some ("error_text", value)
  | .executionDenied reason => some ("execution_denied", reason.getD "")
  | _ => none

def observeCausalContent (turn : TurnAccumulator) : Content → TurnAccumulator
  | .toolResult callId _ output dynamic metadata =>
    if clientToolMetadataPresent metadata then turn.invalidate
    else
      match outputText output with
      | some (tag, value) => observeToolResult sha256 turn callId tag value dynamic
      | none => turn.invalidate
  | content => observeContent sha256 turn content

/-! ## Folding a history -/

/-- `CausalPrefixCommitment`, whose text is the digest in hexadecimal. -/
structure CausalPrefixCommitment where
  digest : List ℕ
deriving DecidableEq, Repr

def causalPrefixRootDomain : List ℕ := bytes "bitrouter.causal-prefix.root.v1"

def causalPrefixStepDomain : List ℕ := bytes "bitrouter.causal-prefix.step.v1"

def initialCausalPrefix : CausalPrefixCommitment := { digest := sha256 causalPrefixRootDomain }

def roleByte : Role → ℕ
  | .system => 0
  | .user => 1
  | .assistant => 2
  | .tool => 3

/-- What is hashed for a step. -/
def stepInput (prior : CausalPrefixCommitment) (role : Role) (message : AssistantTurnCommitment) :
    List ℕ :=
  causalPrefixStepDomain ++ (prior.digest ++ (roleByte role :: message.digest))

def extendCausalStep (prior : CausalPrefixCommitment) (role : Role)
    (message : AssistantTurnCommitment) : CausalPrefixCommitment :=
  { digest := sha256 (stepInput prior role message) }

/-- Whether adjacent messages of a role are one turn. -/
def merges (role : Role) : Bool := role = .assistant || role = .tool

def continuing (role : Role) (rest : List Message) : List Message :=
  if merges role then rest.takeWhile fun message => causalMessageRole message = some role else []

/-- Where a turn ends, its role, and the root there. -/
structure Observation where
  stop : ℕ
  role : Role
  root : CausalPrefixCommitment
deriving DecidableEq

/-- The loop over the messages from an index on. Every round takes a message,
so that as many rounds as messages are enough. -/
def foldCausalFrom : ℕ → ℕ → CausalPrefixCommitment → List Message →
    Option (CausalPrefixCommitment × List Observation)
  | _, _, root, [] => some (root, [])
  | 0, _, _, _ :: _ => none
  | fuel + 1, index, root, message :: rest => do
    let role ← causalMessageRole message
    let more := continuing role rest
    let turn := ((message :: more).flatMap (·.content)).foldl (observeCausalContent sha256) {}
    let message ← turn.finish sha256
    let root := extendCausalStep sha256 root role message
    let stop := index + 1 + more.length
    let (last, observations) ← foldCausalFrom fuel stop root (rest.drop more.length)
    return (last, { stop, role, root } :: observations)

def foldCausalMessages (prior : Option CausalPrefixCommitment) (messages : List Message) :
    Option (CausalPrefixCommitment × List Observation) :=
  foldCausalFrom sha256 messages.length 0 (prior.getD (initialCausalPrefix sha256)) messages

def extendCausalPrefix (prior : Option CausalPrefixCommitment) (messages : List Message)
    (delivered : AssistantTurnCommitment) : Option CausalPrefixCommitment := do
  let (root, _) ← foldCausalMessages sha256 prior messages
  return extendCausalStep sha256 root .assistant delivered

end Fold

/-- What the search for a root has seen. -/
structure Search where
  matchingEnd : Option ℕ := none
  ambiguous : Bool := false
  lastAssistantEnd : Option ℕ := none

def Search.observe (expected : CausalPrefixCommitment) (search : Search) (o : Observation) :
    Search :=
  if o.role = .assistant then
    if o.root = expected then
      { matchingEnd := some o.stop
        ambiguous := search.ambiguous || search.matchingEnd.isSome
        lastAssistantEnd := some o.stop }
    else { search with lastAssistantEnd := some o.stop }
  else search

def findUniqueCausalPrefix (sha256 : List ℕ → List ℕ) (messages : List Message)
    (expected : CausalPrefixCommitment) : Option ℕ := do
  let (_, observations) ← foldCausalMessages sha256 none messages
  let search := observations.foldl (Search.observe expected) {}
  let matchingEnd ← search.matchingEnd
  if ¬ search.ambiguous ∧ search.lastAssistantEnd = some matchingEnd then some matchingEnd
  else none

/-! ## What a history says -/

/-- What the digest of a block covers. -/
inductive CausalItem where
  | text (text : String)
  | reasoning (text : String)
  | toolCall (id name arguments : String) (providerExecuted dynamic : Bool)
  | toolResult (callId kind value : String) (dynamic : Bool)
deriving DecidableEq, Repr

def CausalItem.part : CausalItem → Part
  | text value => { tag := 1, fields := [bytes value] }
  | reasoning value => { tag := 2, fields := [bytes value] }
  | toolCall id name arguments providerExecuted dynamic =>
    { tag := 3, fields := [bytes id, bytes name, bytes arguments, [providerExecuted.toNat],
      [dynamic.toNat]] }
  | toolResult callId kind value dynamic =>
    { tag := 4, fields := [bytes callId, bytes kind, bytes value, [dynamic.toNat]] }

/-- The item of a block. -/
def causalItem : Content → Option CausalItem
  | .text value _ => some (.text value)
  | .other (.reasoning value _ _) => some (.reasoning value)
  | .toolCall id name arguments providerExecuted dynamic _ =>
    some (.toolCall id name arguments providerExecuted dynamic)
  | .toolResult callId _ output dynamic _ =>
    (outputText output).map fun (kind, value) => .toolResult callId kind value dynamic
  | _ => none

def resultSaying (callId kind value : String) (dynamic : Bool) : Option Saying :=
  if callId = "" then none
  else counted
    { part := (CausalItem.toolResult callId kind value dynamic).part, meaningful := true }

/-- What a block adds to a turn of a history. -/
def causalPart : Content → Option Saying
  | .toolResult callId _ output dynamic metadata =>
    if clientToolMetadataPresent metadata then none
    else (outputText output).bind fun (kind, value) => resultSaying callId kind value dynamic
  | content => assistantPart content

/-- **A turn of a history**: adjacent messages that are hashed together. -/
structure CausalTurn where
  role : Role
  said : List Saying
  items : List CausalItem
  size : ℕ

def CausalTurn.parts (turn : CausalTurn) : List Part := turn.said.map (·.part)

/-- What a turn says, and who says it. -/
def CausalTurn.meaning (turn : CausalTurn) : Role × List CausalItem := (turn.role, turn.items)

/-- Whether two adjacent messages are of one turn. -/
def joinsNext (message next : Message) : Bool :=
  causalMessageRole message = causalMessageRole next && (causalMessageRole message).any merges

/-- The messages of a history, turn by turn. -/
def causalGroups (messages : List Message) : List (List Message) := messages.splitBy joinsNext

/-- The turn some messages make. -/
def causalTurn : List Message → Option CausalTurn
  | [] => none
  | message :: more => do
    let role ← causalMessageRole message
    let content := (message :: more).flatMap (·.content)
    let said ← content.mapM causalPart
    if said.any (·.meaningful) ∧ said.length < 256 ^ 8 then
      some { role, said, items := content.filterMap causalItem, size := (message :: more).length }
    else none

/-- **The turns of a history**, if it can be folded. -/
def causalTurns (messages : List Message) : Option (List CausalTurn) :=
  (causalGroups messages).mapM causalTurn

/-! ## The fold goes from turn to turn -/

variable {next : Message} {role : Role}

section Groups

variable {message : Message} {rest : List Message}

theorem joinsNext_eq_true : joinsNext message next = true ↔
    ∃ role, causalMessageRole message = some role ∧ causalMessageRole next = some role
      ∧ merges role = true := by
  unfold joinsNext
  rw [Bool.and_eq_true, decide_eq_true_eq, Option.any_eq_true]
  constructor
  · rintro ⟨heq, role, hrole, hmerges⟩
    exact ⟨role, hrole, heq ▸ hrole, hmerges⟩
  · rintro ⟨role, hrole, hnext, hmerges⟩
    exact ⟨by rw [hrole, hnext], role, hrole, hmerges⟩

theorem role_of_mem_continuing (h : next ∈ continuing role rest) :
    causalMessageRole next = some role ∧ merges role = true := by
  unfold continuing at h
  split at h
  · rename_i hmerges
    have hrole := List.mem_takeWhile_imp (p := fun message =>
      decide (causalMessageRole message = some role)) h
    exact ⟨of_decide_eq_true hrole, hmerges⟩
  · exact absurd h List.not_mem_nil

theorem continuing_append (role : Role) (rest : List Message) :
    continuing role rest ++ rest.drop (continuing role rest).length = rest := by
  unfold continuing
  split
  · exact (List.prefix_iff_eq_append.mp (List.takeWhile_prefix _))
  · rfl

theorem not_continues (h : next ∈ (rest.drop (continuing role rest).length).head?) :
    ¬ (causalMessageRole next = some role ∧ merges role = true) := by
  rintro ⟨hrole, hmerges⟩
  have happend := continuing_append role rest
  unfold continuing at h happend
  rw [if_pos hmerges] at h happend
  have hdrop := List.append_cancel_left (happend.trans List.takeWhile_append_dropWhile.symm)
  rw [hdrop] at h
  have hnot := List.head?_dropWhile_not
    (fun message => decide (causalMessageRole message = some role)) rest
  rw [Option.mem_def.mp h] at hnot
  exact of_decide_eq_false hnot hrole

theorem causalGroups_cons (hrole : causalMessageRole message = some role) :
    causalGroups (message :: rest) = (message :: continuing role rest)
      :: causalGroups (rest.drop (continuing role rest).length) := by
  have hall : ∀ x ∈ message :: continuing role rest, causalMessageRole x = some role := by
    intro x hx
    obtain rfl | hx := List.mem_cons.mp hx
    · exact hrole
    · exact (role_of_mem_continuing hx).1
  have hchain : (message :: continuing role rest).IsChain fun x y => joinsNext x y := by
    refine List.Pairwise.isChain (List.pairwise_cons.mpr ⟨fun y hy => ?_, ?_⟩)
    · obtain ⟨hy, hmerges⟩ := role_of_mem_continuing hy
      exact joinsNext_eq_true.mpr ⟨role, hrole, hy, hmerges⟩
    · refine List.pairwise_of_forall_mem_list fun x hx y hy => ?_
      obtain ⟨hx, hmerges⟩ := role_of_mem_continuing hx
      exact joinsNext_eq_true.mpr ⟨role, hx, (role_of_mem_continuing hy).1, hmerges⟩
  have hseam : ∀ x ∈ (message :: continuing role rest).getLast?,
      ∀ y ∈ (rest.drop (continuing role rest).length).head?, joinsNext x y = false := by
    intro x hx y hy
    refine Bool.eq_false_iff.mpr fun hjoins => not_continues hy ?_
    obtain ⟨role', hx', hy', hmerges⟩ := joinsNext_eq_true.mp hjoins
    rw [hall x (List.mem_of_mem_getLast? hx)] at hx'
    obtain rfl := Option.some.inj hx'
    exact ⟨hy', hmerges⟩
  calc causalGroups (message :: rest)
      = causalGroups ((message :: continuing role rest)
          ++ rest.drop (continuing role rest).length) := by
        rw [List.cons_append, continuing_append]
    _ = causalGroups (message :: continuing role rest)
          ++ causalGroups (rest.drop (continuing role rest).length) :=
        List.splitBy_append hseam
    _ = _ := by
        unfold causalGroups
        rw [List.splitBy_of_isChain (List.cons_ne_nil _ _) hchain, List.singleton_append]

theorem exists_causalGroups (message : Message) (rest : List Message) :
    ∃ more groups, causalGroups (message :: rest) = (message :: more) :: groups := by
  have hne : (message :: rest).splitBy joinsNext ≠ [] :=
    List.splitBy_ne_nil.mpr (List.cons_ne_nil _ _)
  have hhead := List.head_head_splitBy joinsNext (List.cons_ne_nil message rest)
  unfold causalGroups
  cases hgroups : (message :: rest).splitBy joinsNext with
  | nil => exact absurd hgroups hne
  | cons group groups =>
    simp only [hgroups, List.head_cons] at hhead
    cases group with
    | nil => exact absurd (hgroups ▸ List.mem_cons_self) (List.nil_notMem_splitBy joinsNext _)
    | cons first more => exact ⟨more, groups, by rw [← hhead]; rfl⟩

end Groups

section Turns

variable {sha256 : List ℕ → List ℕ}

theorem observeToolResult_eq (turn : TurnAccumulator) (callId kind value : String)
    (dynamic : Bool) : observeToolResult sha256 turn callId kind value dynamic
      = turn.add sha256 (resultSaying callId kind value dynamic) := by
  unfold observeToolResult resultSaying
  rw [field_eq, field_eq, field_eq]
  have hall : ([bytes callId, bytes kind, bytes value, [dynamic.toNat]].all
      fun field => field.length < 256 ^ 8) = true ↔ (bytes callId).length < 256 ^ 8
        ∧ (bytes kind).length < 256 ^ 8 ∧ (bytes value).length < 256 ^ 8 := by
    have hone : (1 : ℕ) < 256 ^ 8 := by decide
    simp only [List.all_cons, List.all_nil, Bool.and_true, Bool.and_eq_true, decide_eq_true_eq,
      List.length_singleton, hone, and_true]
  have hempty : (bytes callId).length = 0 ↔ callId = "" := by
    rw [List.length_eq_zero_iff, bytes_eq_nil]
  by_cases hshort : (bytes callId).length < 256 ^ 8 ∧ (bytes kind).length < 256 ^ 8
      ∧ (bytes value).length < 256 ^ 8
  · have hcounted : counted
        { part := (CausalItem.toolResult callId kind value dynamic).part, meaningful := true }
        = some { part := (CausalItem.toolResult callId kind value dynamic).part
                 meaningful := true } := if_pos (hall.mpr hshort)
    rw [if_pos hshort.1, if_pos hshort.2.1, if_pos hshort.2.2, hcounted]
    dsimp only
    by_cases hcallId : callId = ""
    · rw [if_pos (hempty.mpr hcallId), if_pos hcallId]
      rfl
    · rw [if_neg (mt hempty.mp hcallId), if_neg hcallId]
      rfl
  · have hcounted : counted
        { part := (CausalItem.toolResult callId kind value dynamic).part, meaningful := true }
        = none := if_neg (mt hall.mp hshort)
    have hlong : ∀ {field : String} {fieldDigest : FieldDigest},
        (if (bytes field).length < 256 ^ 8 then
          some ({ len := (bytes field).length
                  digest := sha256 (assistantTurnFieldDomain ++ bytes field) } : FieldDigest)
        else none) = some fieldDigest → (bytes field).length < 256 ^ 8 := by
      intro field fieldDigest h
      by_contra hlong
      rw [if_neg hlong] at h
      exact absurd h (by simp)
    rw [hcounted, ite_self]
    split
    · rename_i hid hkind hvalue
      exact absurd ⟨hlong hid, hlong hkind, hlong hvalue⟩ hshort
    · rfl

theorem observeCausalContent_eq (turn : TurnAccumulator) (content : Content) :
    observeCausalContent sha256 turn content = turn.add sha256 (causalPart content) := by
  unfold observeCausalContent causalPart
  split
  · split
    · rfl
    · split
      · rename_i houtput
        rw [houtput]
        exact observeToolResult_eq turn _ _ _ _
      · rename_i houtput
        rw [houtput]
        rfl
  · exact observeContent_eq turn _

theorem finish_causalContent (content : List Content) :
    (content.foldl (observeCausalContent sha256) {}).finish sha256
      = (content.mapM causalPart).bind fun said =>
        if said.any (·.meaningful) ∧ said.length < 256 ^ 8 then
          some (commit sha256 (said.map (·.part)))
        else none := by
  have hfold : content.foldl (observeCausalContent sha256) {}
      = (content.map causalPart).foldl (TurnAccumulator.add sha256) {} := by
    rw [List.foldl_map]
    exact congrArg (fun f => List.foldl f _ content)
      (funext fun turn => funext fun block => observeCausalContent_eq turn block)
  refine Option.ext fun c => ?_
  rw [hfold, TurnAccumulator.foldl_add_finish, Option.bind_eq_some_iff]
  constructor
  · rintro ⟨said, hsaid, hbound, hany, rfl⟩
    exact ⟨said, mapM_eq_some.mpr hsaid, if_pos ⟨hany, hbound⟩⟩
  · rintro ⟨said, hsaid, hc⟩
    split at hc
    · rename_i hsays
      exact ⟨said, mapM_eq_some.mp hsaid, hsays.2, hsays.1, (Option.some.inj hc).symm⟩
    · exact absurd hc (by simp)

/-! ### The root of some turns -/

variable (sha256)

def stepRoot (root : CausalPrefixCommitment) (turn : CausalTurn) : CausalPrefixCommitment :=
  extendCausalStep sha256 root turn.role (commit sha256 turn.parts)

/-- What is observed along some turns. -/
def observations : ℕ → CausalPrefixCommitment → List CausalTurn → List Observation
  | _, _, [] => []
  | index, root, turn :: turns =>
    let stop := index + turn.size
    let root := stepRoot sha256 root turn
    { stop, role := turn.role, root } :: observations stop root turns

variable {sha256}

theorem causalTurn_cons (message : Message) (more : List Message) :
    causalTurn (message :: more) = (causalMessageRole message).bind fun role =>
      (((message :: more).flatMap (·.content)).mapM causalPart).bind fun said =>
        if said.any (·.meaningful) ∧ said.length < 256 ^ 8 then
          some { role, said, items := ((message :: more).flatMap (·.content)).filterMap causalItem
                 size := (message :: more).length }
        else none := rfl

variable (sha256) in
theorem finish_of_causalTurn (more : List Message) {message : Message}
    (hrole : causalMessageRole message = some role) :
    (causalTurn (message :: more) = none
        ∧ (((message :: more).flatMap (·.content)).foldl (observeCausalContent sha256) {}).finish
          sha256 = none)
      ∨ ∃ turn, causalTurn (message :: more) = some turn ∧ turn.role = role
        ∧ turn.size = (message :: more).length
        ∧ (((message :: more).flatMap (·.content)).foldl (observeCausalContent sha256) {}).finish
          sha256 = some (commit sha256 turn.parts) := by
  rw [finish_causalContent, causalTurn_cons, hrole, Option.bind_some]
  cases ((message :: more).flatMap (·.content)).mapM causalPart with
  | none => exact Or.inl ⟨rfl, rfl⟩
  | some said =>
    rw [Option.bind_some, Option.bind_some]
    by_cases hsays : said.any (·.meaningful) = true ∧ said.length < 256 ^ 8
    · rw [if_pos hsays, if_pos hsays]
      exact Or.inr ⟨_, rfl, rfl, rfl, rfl⟩
    · rw [if_neg hsays, if_neg hsays]
      exact Or.inl ⟨rfl, rfl⟩

/-- **The fold goes through the turns of a history.** -/
theorem foldCausalFrom_eq {fuel index : ℕ} {root : CausalPrefixCommitment}
    {messages : List Message} (hfuel : messages.length ≤ fuel) :
    foldCausalFrom sha256 fuel index root messages
      = (causalTurns messages).map fun turns =>
        (turns.foldl (stepRoot sha256) root, observations sha256 index root turns) := by
  induction fuel generalizing index root messages with
  | zero =>
    obtain rfl := List.length_eq_zero_iff.mp (Nat.le_zero.mp hfuel)
    rfl
  | succ fuel ih =>
    cases messages with
    | nil => rfl
    | cons message rest =>
      have hstep : foldCausalFrom sha256 (fuel + 1) index root (message :: rest)
          = (causalMessageRole message).bind fun role =>
            ((((message :: continuing role rest).flatMap (·.content)).foldl
              (observeCausalContent sha256) {}).finish sha256).bind fun c =>
            (foldCausalFrom sha256 fuel (index + 1 + (continuing role rest).length)
              (extendCausalStep sha256 root role c)
              (rest.drop (continuing role rest).length)).bind fun (last, observations) =>
            some (last, { stop := index + 1 + (continuing role rest).length, role
                          root := extendCausalStep sha256 root role c } :: observations) := rfl
      rw [hstep]
      cases hrole : causalMessageRole message with
      | none =>
        obtain ⟨more, groups, hgroups⟩ := exists_causalGroups message rest
        rw [causalTurns, hgroups, List.mapM_cons, causalTurn_cons, hrole]
        rfl
      | some role =>
        rw [Option.bind_some, causalTurns, causalGroups_cons hrole, List.mapM_cons]
        rcases finish_of_causalTurn sha256 (continuing role rest) hrole with
          ⟨hturn, hfinish⟩ | ⟨turn, hturn, rfl, hsize, hfinish⟩
        · rw [hturn, hfinish]
          rfl
        · have hdrop : (rest.drop (continuing turn.role rest).length).length ≤ fuel := by
            rw [List.length_drop]
            have hlength : (message :: rest).length = rest.length + 1 := List.length_cons
            omega
          have hstop : index + 1 + (continuing turn.role rest).length = index + turn.size := by
            rw [hsize, List.length_cons]
            omega
          rw [hturn, hfinish, Option.bind_some, ih hdrop, hstop]
          show _ = Option.map _ ((causalTurns _).bind _)
          cases causalTurns (rest.drop (continuing turn.role rest).length) with
          | none => rfl
          | some turns => rfl

variable (sha256) in
theorem foldCausalMessages_eq (prior : Option CausalPrefixCommitment) (messages : List Message) :
    foldCausalMessages sha256 prior messages = (causalTurns messages).map fun turns =>
      (turns.foldl (stepRoot sha256) (prior.getD (initialCausalPrefix sha256)),
        observations sha256 0 (prior.getD (initialCausalPrefix sha256)) turns) :=
  foldCausalFrom_eq le_rfl

end Turns

end BitRouter.Gateway
