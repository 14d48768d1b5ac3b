import BitRouter.ServerTools.Merged

/-!
# The two loops on one script

The loop over whole replies and the loop over streams are two programs. Here
they are given the same script: each turn once as a list of content blocks
and once as a stream of parts that carries it (`Streams`): text in
fragments, each tool call as a group of deltas, then the usage and a
terminal. A call the provider executed itself may be streamed like any
other or not at all.

The stream loop sees the calls of a turn through its buffer. The buffer
merges calls that share an id, drops those without a name, and cannot tell
that the provider executed a call; and a router-owned call with provider
metadata is a client call to it. The two readings of a turn may agree all the
same (`Alike`), and the runs agree exactly if they agree on every turn that
is reached (`runs_agree_iff`). A turn that raises none of these is read alike
(`Agreeable.alike`).
-/

namespace BitRouter.ServerTools

open Ai

/-! ## One turn in both forms -/

/-- The call of a block, unless the provider executed it. -/
def pending : Content → Option BufferedCall
  | .toolCall id name arguments false _ metadata => some ⟨id, name, arguments, metadata⟩
  | _ => none

/-- Whether a block is a call that the provider executed. -/
def isProviderExecuted : Content → Bool
  | .toolCall _ _ _ true _ _ => true
  | _ => false

/-- The delta group of a call: the first delta names it and carries its
metadata, the others continue its arguments. -/
def deltaGroup (id name first : String) (rest : List String) (metadata : ProviderMetadata) :
    List CallDelta :=
  ⟨id, some name, first, metadata⟩ :: rest.map (fun f => ⟨id, none, f, []⟩)

/-- The part a delta arrives as. -/
def CallDelta.part (d : CallDelta) : StreamPart :=
  .toolCallDelta d.id d.name d.arguments d.providerMetadata

/-- **A block and the parts that stream it.** -/
inductive Streams : Content → List StreamPart → Prop
  | text (fragments : List String) (metadata : ProviderMetadata) :
    Streams (.text (String.join fragments) metadata) (fragments.map .textDelta)
  | call (id name first : String) (rest : List String) (executed dynamic : Bool)
      (metadata : ProviderMetadata) :
    Streams (.toolCall id name (first ++ String.join rest) executed dynamic metadata)
      ((deltaGroup id name first rest metadata).map CallDelta.part)
  | unstreamed (id name arguments : String) (dynamic : Bool) (metadata : ProviderMetadata) :
    Streams (.toolCall id name arguments true dynamic metadata) []
  | toolResult (callId : String) (toolName : Option String) (output : ToolResultOutput)
      (dynamic : Bool) (metadata : ProviderMetadata) (parts : List PassivePart) :
    Streams (.toolResult callId toolName output dynamic metadata) (parts.map .other)
  | other (block : PassiveContent) (parts : List PassivePart) :
    Streams (.other block) (parts.map .other)

/-- How a scripted turn ends. -/
inductive Terminal
  | finish (reason : FinishReason)
  /-- A Responses completion, which carries the usage itself. -/
  | completed (completion : ResponseCompletion) (reason : FinishReason)

/-- **A turn of the script**: its blocks, each with the parts that stream it,
and its ending. -/
structure ScriptedTurn where
  blocks : List (Content × List StreamPart)
  streams : ∀ b ∈ blocks, Streams b.1 b.2
  usage : Option Usage
  terminal : Terminal

namespace ScriptedTurn

/-- The blocks of the whole reply. -/
def content (t : ScriptedTurn) : List Content := t.blocks.map Prod.fst

/-- The parts that stream the blocks. -/
def body (t : ScriptedTurn) : List StreamPart := t.blocks.flatMap Prod.snd

/-- The usage and the terminal of the stream. -/
def ending (t : ScriptedTurn) : List StreamPart :=
  match t.terminal with
  | .finish reason => (t.usage.map StreamPart.usage).toList ++ [.finish reason]
  | .completed completion _ => [.responseCompleted completion t.usage]

/-- The turn as a whole reply. -/
def result (t : ScriptedTurn) : GenerateResult where
  content := t.content
  usage := t.usage
  finishReason := match t.terminal with
    | .finish reason => some reason
    | .completed _ reason => some reason

/-- The answer of an upstream that does not stream. -/
def reply (t : ScriptedTurn) : Except BitrouterError PipelineOutput := .ok (.generation t.result)

/-- The answer of an upstream that streams. -/
def stream (t : ScriptedTurn) : List Item := (t.body ++ t.ending).map .ok

/-- The calls of the whole reply that the provider did not execute. -/
def calls (t : ScriptedTurn) : List BufferedCall := t.content.filterMap pending

/-- The calls that the deltas of the stream amount to, without the nameless ones. -/
def merged (t : ScriptedTurn) : List BufferedCall :=
  (callsOf (t.body.filterMap callDelta)).filter (fun b => b.name ≠ "")

/-- **A turn that both loops read alike**, after some rounds. -/
structure Alike (l : ServerToolLoop) (owned : List String) (elapsed : ℕ → ℕ) (rounds : ℕ)
    (t : ScriptedTurn) : Prop where
  /-- Both or neither find a call of the client: by its name or, in the stream,
  by its metadata. -/
  client : (∃ c ∈ t.calls, c.name ∉ owned) ↔
    ∃ b ∈ t.merged, b.name ∉ owned ∨ b.providerMetadata ≠ []
  /-- If neither does, they find the same calls, or calls that are not executed. -/
  router : (∀ c ∈ t.calls, c.name ∈ owned) →
    t.calls.map routerCall = t.merged.map routerCall
      ∨ (l.AtBound elapsed rounds ∧ t.calls ≠ [] ∧ t.merged ≠ [])

/-- **A turn that gives no occasion to differ.** The provider's own calls are not
streamed; the other calls have distinct ids; if one of them is client-owned,
then a named one is client-owned or carries metadata; and if all are
router-owned, then all are named and carry none. -/
structure Agreeable (owned : List String) (t : ScriptedTurn) : Prop where
  provider : ∀ b ∈ t.blocks, isProviderExecuted b.1 = true → b.2 = []
  distinct : (t.calls.map BufferedCall.id).Nodup
  client : (∃ c ∈ t.calls, c.name ∉ owned) →
    ∃ c ∈ t.calls, c.name ≠ "" ∧ (c.name ∉ owned ∨ c.providerMetadata ≠ [])
  router : (∀ c ∈ t.calls, c.name ∈ owned) →
    ∀ c ∈ t.calls, c.name ≠ "" ∧ c.providerMetadata = []

end ScriptedTurn

/-! ## The buffer of a scripted turn -/

/-- Buffer some deltas. -/
def bufferAll (ds : List CallDelta) (bs : List BufferedCall) : List BufferedCall :=
  ds.foldl (fun bs d => bufferDelta d bs) bs

theorem bufferAll_append (ds ds' : List CallDelta) (bs : List BufferedCall) :
    bufferAll (ds ++ ds') bs = bufferAll ds' (bufferAll ds bs) := List.foldl_append

/-- **The buffer is what the deltas amount to.** -/
theorem bufferAll_callsOf (ds ds' : List CallDelta) :
    bufferAll ds' (callsOf ds) = callsOf (ds ++ ds') := by
  induction ds' generalizing ds with
  | nil => rw [List.append_nil]; rfl
  | cons d ds' ih =>
    show bufferAll ds' (bufferDelta d (callsOf ds)) = _
    rw [bufferDelta_callsOf, ih, List.append_assoc]
    rfl

variable {bs : List BufferedCall}

theorem bufferDelta_fresh {d : CallDelta} (h : d.id ∉ bs.map BufferedCall.id) :
    bufferDelta d bs = bs ++ [d.open] := by
  induction bs with
  | nil => rfl
  | cons b bs ih =>
    rw [List.map_cons, List.mem_cons, not_or] at h
    obtain ⟨hne, hnot⟩ := h
    rw [bufferDelta, if_neg (Ne.symm hne), ih hnot, List.cons_append]

theorem bufferDelta_last {d : CallDelta} {b : BufferedCall} (h : d.id ∉ bs.map BufferedCall.id)
    (hid : b.id = d.id) :
    bufferDelta d (bs ++ [b]) = bs ++ [b.push d] := by
  induction bs with
  | nil => simp [bufferDelta, hid]
  | cons c bs ih =>
    rw [List.map_cons, List.mem_cons, not_or] at h
    obtain ⟨hne, hnot⟩ := h
    rw [List.cons_append, bufferDelta, if_neg (Ne.symm hne), ih hnot, List.cons_append]

theorem bufferAll_continue {id : String} (h : id ∉ bs.map BufferedCall.id) (rest : List String)
    {b : BufferedCall} (hid : b.id = id) :
    bufferAll (rest.map (fun f => ⟨id, none, f, []⟩)) (bs ++ [b]) =
      bs ++ [⟨b.id, b.name, b.args ++ String.join rest, b.providerMetadata⟩] := by
  induction rest generalizing b with
  | nil => simp [bufferAll, String.join]
  | cons f rest ih =>
    have hjoin : String.join (f :: rest) = f ++ String.join rest := by
      simp [String.join_cons]
    rw [List.map_cons, bufferAll, List.foldl_cons, bufferDelta_last (by exact h) hid]
    show bufferAll _ _ = _
    rw [ih (by exact hid), hjoin]
    simp [BufferedCall.push, CallDelta.newName, ProviderMetadata.extend, String.append_assoc]

/-- **A delta group of a fresh id adds its call.** -/
theorem bufferAll_deltaGroup {id : String} (h : id ∉ bs.map BufferedCall.id) (name first : String)
    (rest : List String) (metadata : ProviderMetadata) :
    bufferAll (deltaGroup id name first rest metadata) bs =
      bs ++ [⟨id, name, first ++ String.join rest, metadata⟩] := by
  rw [deltaGroup, bufferAll, List.foldl_cons, bufferDelta_fresh (by exact h)]
  show bufferAll _ _ = _
  rw [bufferAll_continue h rest rfl]
  rfl

@[simp] theorem callDelta_part (d : CallDelta) : callDelta d.part = some d := rfl

theorem callDelta_parts (ds : List CallDelta) :
    (ds.map CallDelta.part).filterMap callDelta = ds := by
  induction ds with
  | nil => rfl
  | cons d ds ih => rw [List.map_cons, List.filterMap_cons, callDelta_part, ih]

theorem Streams.bufferAll {c : Content} {parts : List StreamPart} (h : Streams c parts)
    (hprovider : isProviderExecuted c = true → parts = []) {bs : List BufferedCall}
    (hfresh : ∀ b ∈ pending c, b.id ∉ bs.map BufferedCall.id) :
    bufferAll (parts.filterMap callDelta) bs = bs ++ (pending c).toList := by
  have hnone {α : Type} (f : α → StreamPart) (hf : ∀ a, callDelta (f a) = none) (as : List α) :
      (as.map f).filterMap callDelta = [] := by
    rw [List.filterMap_map]
    exact List.filterMap_eq_nil_iff.mpr (fun a _ => hf a)
  cases h with
  | text fragments metadata =>
    rw [hnone _ (fun _ => rfl)]
    simp [BitRouter.ServerTools.bufferAll, pending]
  | call id name first rest executed dynamic metadata =>
    cases executed with
    | true =>
      rw [hprovider rfl]
      simp [BitRouter.ServerTools.bufferAll, pending]
    | false =>
      rw [callDelta_parts, bufferAll_deltaGroup (hfresh _ rfl)]
      rfl
  | unstreamed id name arguments dynamic metadata =>
    simp [BitRouter.ServerTools.bufferAll, pending]
  | toolResult callId toolName output dynamic metadata parts =>
    rw [hnone _ (fun _ => rfl)]
    simp [BitRouter.ServerTools.bufferAll, pending]
  | other block parts =>
    rw [hnone _ (fun _ => rfl)]
    simp [BitRouter.ServerTools.bufferAll, pending]

theorem bufferAll_blocks {blocks : List (Content × List StreamPart)}
    (hstreams : ∀ b ∈ blocks, Streams b.1 b.2)
    (hprovider : ∀ b ∈ blocks, isProviderExecuted b.1 = true → b.2 = [])
    (hdistinct : ((bs ++ (blocks.map Prod.fst).filterMap pending).map BufferedCall.id).Nodup) :
    bufferAll ((blocks.flatMap Prod.snd).filterMap callDelta) bs =
      bs ++ (blocks.map Prod.fst).filterMap pending := by
  induction blocks generalizing bs with
  | nil => simp [bufferAll]
  | cons b blocks ih =>
    obtain ⟨hb, hblocks⟩ := List.forall_mem_cons.mp hstreams
    obtain ⟨hbprovider, hblocksprovider⟩ := List.forall_mem_cons.mp hprovider
    have hsplit : ((b :: blocks).map Prod.fst).filterMap pending =
        (pending b.1).toList ++ (blocks.map Prod.fst).filterMap pending := by
      rw [List.map_cons, List.filterMap_cons]
      cases pending b.1 <;> rfl
    rw [hsplit, ← List.append_assoc] at hdistinct
    have hfresh : ∀ c ∈ pending b.1, c.id ∉ bs.map BufferedCall.id := by
      intro c hc hmem
      rw [hc, List.map_append, List.map_append] at hdistinct
      have hnodup := (List.nodup_append.mp hdistinct).1
      exact (List.nodup_append.mp hnodup).2.2 _ hmem _ (by simp) rfl
    rw [List.flatMap_cons, List.filterMap_append, bufferAll_append,
      hb.bufferAll hbprovider hfresh, ih hblocks hblocksprovider hdistinct, hsplit,
      List.append_assoc]

/-! ## Draining a scripted turn -/

/-- What is held back of some parts. -/
def observeAll (t : StreamTurn) (parts : List StreamPart) : StreamTurn :=
  parts.foldl (fun t p => (t.observe p).1) t

theorem consume_map_ok (t : StreamTurn) (parts : List StreamPart) :
    consume t (parts.map .ok) = (parts.filter isForwarded, .ok (observeAll t parts)) := by
  induction parts generalizing t with
  | nil => rfl
  | cons p parts ih =>
    rw [List.map_cons, consume, ih, List.filter_cons, observe_forwarded]
    split <;> rfl

theorem observeAll_buffered (t : StreamTurn) (parts : List StreamPart) :
    (observeAll t parts).buffered = bufferAll (parts.filterMap callDelta) t.buffered := by
  induction parts generalizing t with
  | nil => rfl
  | cons p parts ih =>
    have hbuffered := observe_buffered t p
    rw [observeAll, List.foldl_cons, List.filterMap_cons]
    show (observeAll _ parts).buffered = _
    rw [ih, hbuffered]
    cases callDelta p <;> rfl

/-- A part that is neither usage nor a terminal. -/
def isQuiet (p : StreamPart) : Bool := ¬ isUsage p ∧ ¬ p.isTerminal

theorem observeAll_turnUsage {parts : List StreamPart} (h : ∀ p ∈ parts, isQuiet p = true)
    (t : StreamTurn) : (observeAll t parts).turnUsage = t.turnUsage := by
  induction parts generalizing t with
  | nil => rfl
  | cons p parts ih =>
    obtain ⟨hp, hparts⟩ := List.forall_mem_cons.mp h
    show (observeAll _ parts).turnUsage = _
    rw [ih hparts]
    cases p <;> first | rfl | exact absurd hp (by simp [isQuiet, isUsage, StreamPart.isTerminal])

theorem Streams.quiet {c : Content} {parts : List StreamPart} (h : Streams c parts) :
    ∀ p ∈ parts, isQuiet p = true := by
  have hmap {α : Type} (f : α → StreamPart) (hf : ∀ a, isQuiet (f a) = true) (as : List α) :
      ∀ p ∈ as.map f, isQuiet p = true := by
    intro p hp
    obtain ⟨a, -, rfl⟩ := List.mem_map.mp hp
    exact hf a
  cases h with
  | text fragments metadata => exact hmap _ (fun _ => rfl) _
  | call id name first rest executed dynamic metadata => exact hmap _ (fun _ => rfl) _
  | unstreamed id name arguments dynamic metadata =>
    exact fun p hp => absurd hp List.not_mem_nil
  | toolResult callId toolName output dynamic metadata parts => exact hmap _ (fun _ => rfl) _
  | other block parts => exact hmap _ (fun _ => rfl) _

variable {t : ScriptedTurn}

namespace ScriptedTurn

/-- What is held back of the whole stream. -/
def held (t : ScriptedTurn) : StreamTurn := observeAll {} (t.body ++ t.ending)

theorem consume_stream (t : ScriptedTurn) :
    consume {} t.stream = ((t.body ++ t.ending).filter isForwarded, .ok t.held) :=
  consume_map_ok {} _

theorem held_usage (t : ScriptedTurn) : t.held.turnUsage.finalized = t.usage := by
  have hquiet : ∀ p ∈ t.body, isQuiet p = true := by
    intro p hp
    obtain ⟨b, hb, hp⟩ := List.mem_flatMap.mp hp
    exact (t.streams b hb).quiet p hp
  have hbody := observeAll_turnUsage hquiet {}
  have hheld : t.held = observeAll (observeAll {} t.body) t.ending := List.foldl_append
  rw [hheld, ending]
  cases t.terminal with
  | finish _ | completed _ _ =>
    cases husage : t.usage with
    | none =>
      show (observeAll {} t.body).turnUsage.finalized = none
      rw [hbody]
      rfl
    | some u => rfl

theorem ending_deltas (t : ScriptedTurn) : t.ending.filterMap callDelta = [] := by
  unfold ending
  cases t.terminal with
  | finish reason => cases t.usage <;> rfl
  | completed completion reason => rfl

/-- **Where nothing merges, the buffer is the calls of the turn.** -/
theorem held_buffered (hprovider : ∀ b ∈ t.blocks, isProviderExecuted b.1 = true → b.2 = [])
    (hdistinct : (t.calls.map BufferedCall.id).Nodup) : t.held.buffered = t.calls := by
  rw [held, observeAll_buffered, List.filterMap_append, ending_deltas, List.append_nil, body]
  rw [bufferAll_blocks t.streams hprovider (by exact hdistinct)]
  rfl

/-- The named calls of the buffer are the merged ones. -/
theorem held_named (t : ScriptedTurn) : t.held.named = t.merged := by
  have hbuffered : t.held.buffered = bufferAll (t.body.filterMap callDelta) (callsOf []) := by
    rw [held, observeAll_buffered, List.filterMap_append, ending_deltas, List.append_nil]
    rfl
  rw [StreamTurn.named, hbuffered, bufferAll_callsOf]
  rfl

theorem stream_clean (t : ScriptedTurn) : ¬ ∃ e, Except.error e ∈ t.stream := by
  rintro ⟨e, he⟩
  obtain ⟨p, -, hp⟩ := List.mem_map.mp he
  cases hp

theorem held_buffered_callsOf (t : ScriptedTurn) :
    t.held.buffered = callsOf (callDeltas t.stream) := by
  have hok : (consume {} t.stream).2 = .ok t.held := by rw [t.consume_stream]
  exact @consume_buffer {} t.held t.stream hok [] rfl

/-! ## The decision on a scripted turn -/

theorem filterMap_pendingCall (content : List Content) :
    content.filterMap pendingCall = (content.filterMap pending).map routerCall := by
  rw [List.map_filterMap]
  refine List.filterMap_congr (fun c _ => ?_)
  unfold pendingCall pending
  split <;> simp_all [routerCall]

/-- How the loop over whole replies classifies a turn. -/
theorem classifyTurn_content (owned : List String) (t : ScriptedTurn) :
    classifyTurn t.content owned =
      if ∃ c ∈ t.calls, c.name ∉ owned then .handBack
      else if t.calls = [] then .done else .execute (t.calls.map routerCall) := by
  have hcalls : t.content.filterMap pendingCall = t.calls.map routerCall :=
    filterMap_pendingCall t.content
  have hany : (t.calls.map routerCall).any (fun c => c.name ∉ owned) = true
      ↔ ∃ c ∈ t.calls, c.name ∉ owned := by
    rw [List.any_map, List.any_eq_true]
    exact exists_congr (fun c => and_congr_right (fun _ => decide_eq_true_iff))
  rw [classifyTurn, hcalls]
  by_cases hclient : ∃ c ∈ t.calls, c.name ∉ owned
  · rw [if_pos hclient]
    exact if_pos (hany.mpr hclient)
  · rw [if_neg hclient]
    refine (if_neg (fun h => hclient (hany.mp h))).trans ?_
    by_cases hempty : t.calls = []
    · rw [if_pos hempty, hempty]
      rfl
    · have hmapped : ¬ (t.calls.map routerCall).isEmpty = true := by
        rw [List.isEmpty_iff, List.map_eq_nil_iff]
        exact hempty
      rw [if_neg hempty]
      exact if_neg hmapped

section Disposition

variable {l : ServerToolLoop} {owned : List String} {elapsed : ℕ → ℕ} {rounds : ℕ}

/-- What the two loops find in a turn that they read alike. -/
theorem Alike.disposition (h : t.Alike l owned elapsed rounds) :
    (classifyTurn t.content owned = .handBack ∧ t.held.hasClient owned = true) ∨
      (classifyTurn t.content owned = .done ∧ t.held.hasClient owned = false
        ∧ t.held.routerCalls owned = []) ∨
      (∃ calls calls', calls ≠ [] ∧ calls' ≠ [] ∧ classifyTurn t.content owned = .execute calls
        ∧ t.held.hasClient owned = false ∧ t.held.routerCalls owned = calls'
        ∧ (calls = calls' ∨ l.AtBound elapsed rounds)) := by
  have hhas := ServerToolLoop.hasClient_iff owned t.held
  rw [held_named, ← h.client] at hhas
  rw [classifyTurn_content]
  by_cases hclient : ∃ c ∈ t.calls, c.name ∉ owned
  · exact Or.inl ⟨if_pos hclient, hhas.mpr hclient⟩
  · have hnot : ¬ t.held.hasClient owned = true := fun hc => hclient (hhas.mp hc)
    have hrouter := ServerToolLoop.routerCalls_of_not_hasClient hnot
    rw [held_named] at hrouter
    have hall : ∀ c ∈ t.calls, c.name ∈ owned := by
      intro c hc
      by_contra hname
      exact hclient ⟨c, hc, hname⟩
    rw [if_neg hclient]
    right
    rcases h.router hall with hsame | ⟨hbound, hcalls, hmerged⟩
    · by_cases hempty : t.calls = []
      · left
        rw [hempty, List.map_nil] at hsame
        exact ⟨if_pos hempty, by simpa using hnot, by rw [hrouter, ← hsame]⟩
      · right
        have hne : t.calls.map routerCall ≠ [] := fun hnil => hempty (List.map_eq_nil_iff.mp hnil)
        exact ⟨_, _, hne, hsame ▸ hne, if_neg hempty, by simpa using hnot, hrouter, Or.inl hsame⟩
    · right
      refine ⟨_, _, fun hnil => hcalls (List.map_eq_nil_iff.mp hnil),
        fun hnil => hmerged (List.map_eq_nil_iff.mp hnil), if_neg hcalls, by simpa using hnot,
        hrouter, Or.inr hbound⟩

/-- **A turn that gives no occasion to differ** is read alike. -/
theorem Agreeable.alike (h : t.Agreeable owned) : t.Alike l owned elapsed rounds := by
  have hbuffered := held_buffered h.provider h.distinct
  have hmerged : t.merged = t.calls.filter (fun b => b.name ≠ "") := by
    rw [← held_named, StreamTurn.named, hbuffered]
  have hkept (howned : ∀ c ∈ t.calls, c.name ∈ owned) : t.merged = t.calls := by
    rw [hmerged]
    exact List.filter_eq_self.mpr (fun c hc => by simpa using (h.router howned c hc).1)
  refine ⟨⟨fun hclient => ?_, fun hclient => ?_⟩, fun howned => Or.inl (by rw [hkept howned])⟩
  · obtain ⟨c, hc, hnamed, hguard⟩ := h.client hclient
    refine ⟨c, ?_, hguard⟩
    rw [hmerged]
    exact List.mem_filter.mpr ⟨hc, by simpa using hnamed⟩
  · by_contra hnone
    have howned : ∀ c ∈ t.calls, c.name ∈ owned := by
      intro c hc
      by_contra hname
      exact hnone ⟨c, hc, hname⟩
    obtain ⟨c, hc, hguard⟩ := hclient
    rw [hkept howned] at hc
    rcases hguard with hname | hmetadata
    · exact hname (howned c hc)
    · exact hmetadata (h.router howned c hc).2

end Disposition

end ScriptedTurn

/-! ## The simulation -/

/-- The two loops between turns. -/
structure Simulates (s : LoopState) (s' : StreamState) : Prop where
  total : s.total = s'.total
  hadUsage : s.hadUsage = s'.hadUsage
  consecutiveErrors : s.consecutiveErrors = s'.consecutiveErrors
  rounds : s.rounds = s'.rounds
  executed : s.executed = s'.executed

theorem Simulates.observe {s : LoopState} {s' : StreamState} (h : Simulates s s')
    (u : Option Usage) : Simulates (s.observe u) (s'.observe u) := by
  cases u with
  | none => exact h
  | some u =>
    exact ⟨congrArg (fun total => addUsage total u) h.total, rfl, h.consecutiveErrors, h.rounds,
      h.executed⟩

/-- The usage of a whole reply that ends a run is the accumulated one. -/
theorem LoopState.withUsage_usage (s : LoopState) (g : GenerateResult) :
    ((s.observe g.usage).withUsage g).usage =
      if (s.observe g.usage).hadUsage then some (s.observe g.usage).total else none := by
  cases husage : g.usage with
  | none =>
    unfold LoopState.withUsage
    split
    · rfl
    · exact husage
  | some u => rfl

theorem Simulates.usage {s : LoopState} {s' : StreamState} (h : Simulates s s') :
    s'.usage = if s.hadUsage then some s.total else none := by
  rw [StreamState.usage, h.hadUsage, h.total]

theorem Simulates.afterCalls (l : ServerToolLoop) {s : LoopState} {s' : StreamState}
    (h : Simulates s s')
    (content : List Content) (t : StreamTurn) (calls : List RouterCall) :
    Simulates (l.afterCalls s content calls) (l.afterStreamCalls s' t calls) := by
  refine ⟨h.total, h.hadUsage, ?_, congrArg (· + 1) h.rounds, congrArg (· ++ calls) h.executed⟩
  simp only [ServerToolLoop.afterCalls, ServerToolLoop.afterStreamCalls, h.executed,
    h.consecutiveErrors]

namespace ServerToolLoop

variable {l : ServerToolLoop} {owned : List String} {elapsed : ℕ → ℕ}

/-- What the two loops make of a turn: the same decision, and then either
they both stop with the same usage or they both go on alike. -/
def StepsAgree : Decision × Step LoopState ServerToolLoopOutcome →
    Decision × List StreamPart × Step StreamState Closing → Prop
  | (d, .again s), (d', _, .again s') => d = d' ∧ Simulates s s'
  | (d, .stop o), (d', _, .stop closing) => d = d' ∧ o.result.usage = closing.usage
  | _, _ => False

/-- **One turn of the simulation.** -/
theorem steps_agree {s : LoopState} {s' : StreamState} (h : Simulates s s')
    (ht : t.Alike l owned elapsed s.rounds) :
    StepsAgree (l.turn owned elapsed s t.result) (l.closeTurn owned elapsed s' t.held) := by
  have hobserve := h.observe t.usage
  have husage := hobserve.usage
  have hreply := s.withUsage_usage t.result
  have hclose := t.held_usage
  have hsame : (s.observe t.usage).rounds = s.rounds := by cases t.usage <;> rfl
  rcases ht.disposition with ⟨hclass, hclient⟩ | ⟨hclass, hclient, hrouter⟩ |
    ⟨calls, calls', hne, hne', hclass, hclient, hrouter, hcalls⟩
  · rw [turn_handBack (by exact hclass), closeTurn]
    simp only [hclient, hclose, if_true]
    exact ⟨rfl, hreply.trans husage.symm⟩
  · rw [turn_done (by exact hclass), closeTurn]
    simp only [hclient, hrouter, hclose, List.isEmpty_nil, if_true]
    exact ⟨rfl, hreply.trans husage.symm⟩
  · have hnonempty : calls'.isEmpty = false := by simpa using hne'
    have hrounds := hobserve.rounds
    by_cases hbound : l.AtBound elapsed (s.observe t.usage).rounds
    · rw [turn_bound (by exact hclass) hbound, closeTurn]
      rw [hrounds] at hbound
      simp only [hclient, hrouter, hclose, hnonempty, if_pos hbound]
      exact ⟨rfl, hreply.trans husage.symm⟩
    · obtain rfl : calls = calls' := hcalls.resolve_right (fun hat => hbound (hsame ▸ hat))
      have hafter := hobserve.afterCalls l t.content t.held calls
      rw [turn_execute (by exact hclass) hbound, closeTurn]
      rw [hrounds] at hbound
      simp only [hclient, hrouter, hclose, hnonempty, if_neg hbound, Bool.false_eq_true, if_false]
      have hexecuted := hobserve.executed
      have herrors := hafter.consecutiveErrors
      by_cases hstop : l.config.maxConsecutiveErrors ≤
          (l.afterCalls (s.observe t.usage) t.content calls).consecutiveErrors
      · rw [if_pos (by exact hstop), if_pos (by rwa [← herrors])]
        exact ⟨by rw [← hexecuted]; rfl, hreply.trans husage.symm⟩
      · rw [if_neg (by exact hstop), if_neg (by rwa [← herrors])]
        exact ⟨by rw [← hexecuted]; rfl, hafter⟩

/-- The decision of the loop over whole replies on a turn. -/
theorem turn_decides (l : ServerToolLoop) (owned : List String) (elapsed : ℕ → ℕ) (s : LoopState)
    (t : ScriptedTurn) :
    (l.turn owned elapsed s t.result).1 =
      if ∃ c ∈ t.calls, c.name ∉ owned then .handBack
      else if t.calls = [] then .answer
      else if l.AtBound elapsed s.rounds then .bound
      else .execute (t.calls.map routerCall)
        (hadError (l.executeCalls s.executed (t.calls.map routerCall))) := by
  have hrounds : (s.observe t.result.usage).rounds = s.rounds := by
    cases t.result.usage <;> rfl
  have hexecuted : (s.observe t.result.usage).executed = s.executed := by
    cases t.result.usage <;> rfl
  have hclass : classifyTurn t.result.content owned = _ := t.classifyTurn_content owned
  by_cases hclient : ∃ c ∈ t.calls, c.name ∉ owned
  · rw [if_pos hclient] at hclass ⊢
    rw [turn_handBack hclass]
  · rw [if_neg hclient] at hclass ⊢
    by_cases hempty : t.calls = []
    · rw [if_pos hempty] at hclass ⊢
      rw [turn_done hclass]
    · rw [if_neg hempty] at hclass ⊢
      by_cases hbound : l.AtBound elapsed s.rounds
      · rw [if_pos hbound, turn_bound hclass (by rwa [hrounds])]
      · rw [if_neg hbound, turn_execute hclass (by rwa [hrounds]), hexecuted]

/-- **Only turns that are read alike are decided alike.** -/
theorem alike_of_decision {s : LoopState} {s' : StreamState} (h' : Simulates s s')
    (h : (l.closeTurn owned elapsed s' t.held).1 = (l.turn owned elapsed s t.result).1) :
    t.Alike l owned elapsed s.rounds := by
  have hclosed : l.Decides owned elapsed s.rounds t.merged
      (l.turn owned elapsed s t.result).1 := by
    rw [← h, h'.rounds, ← ScriptedTurn.held_named]
    exact closeTurn_decides l owned elapsed s' t.held
  rw [turn_decides] at hclosed
  by_cases hclient : ∃ c ∈ t.calls, c.name ∉ owned
  · rw [if_pos hclient] at hclosed
    obtain ⟨c, hc, hname⟩ := hclient
    exact ⟨⟨fun _ => hclosed, fun _ => ⟨c, hc, hname⟩⟩, fun hall => absurd (hall c hc) hname⟩
  · rw [if_neg hclient] at hclosed
    by_cases hempty : t.calls = []
    · rw [if_pos hempty] at hclosed
      have hmerged : t.merged = [] := hclosed
      refine ⟨⟨fun h => absurd h hclient, fun ⟨b, hb, _⟩ => ?_⟩, fun _ => Or.inl ?_⟩
      · rw [hmerged] at hb
        exact absurd hb List.not_mem_nil
      · rw [hempty, hmerged]
    · rw [if_neg hempty] at hclosed
      have hrouters (hall : ∀ b ∈ t.merged, b.name ∈ owned ∧ b.providerMetadata = []) :
          (∃ c ∈ t.calls, c.name ∉ owned) ↔
            ∃ b ∈ t.merged, b.name ∉ owned ∨ b.providerMetadata ≠ [] := by
        refine ⟨fun h => absurd h hclient, fun ⟨b, hb, hguard⟩ => ?_⟩
        rcases hguard with hname | hmetadata
        · exact absurd (hall b hb).1 hname
        · exact absurd (hall b hb).2 hmetadata
      by_cases hbound : l.AtBound elapsed s.rounds
      · rw [if_pos hbound] at hclosed
        obtain ⟨hne, hall, -⟩ := hclosed
        exact ⟨hrouters hall, fun _ => Or.inr ⟨hbound, hempty, hne⟩⟩
      · rw [if_neg hbound] at hclosed
        obtain ⟨-, hall, -, hcalls⟩ := hclosed
        exact ⟨hrouters hall, fun _ => Or.inl hcalls⟩

end ServerToolLoop

/-! ## The two runs -/

def usageOf : StreamPart → Option Usage
  | .usage u => some u
  | _ => none

/-- **Two runs that agree**: the same decisions on the same number of turns –
so the same calls executed, in the same order –, the same accumulated usage,
and the same failure. -/
structure RunsAgree (run : Run) (streamed : StreamRun) : Prop where
  decisions : streamed.turns.map StreamedTurn.decision = run.turns.map (fun t => some t.2)
  usage : ∀ o, run.result = .ok o →
    (okParts streamed.items).filterMap usageOf = o.result.usage.toList
  failure : ∀ e, run.result = .error e →
    ∃ parts : List StreamPart, streamed.items = parts.map .ok ++ [.error e]

/-- **What a request comes to alike** whether or not it streams: two runs that
agree, or the same failure to start. -/
def Agree (run : Run) : Except BitrouterError StreamRun → Prop
  | .ok streamed => RunsAgree run streamed
  | .error e => run.turns = [] ∧ run.result = .error e

/-- The parts of a turn carry no usage. -/
theorem seen_usage {l : ServerToolLoop} {before : List RouterCall} {t : StreamedTurn}
    (h : t.Emits l before) :
    t.seen.filterMap usageOf = [] := by
  refine List.filterMap_eq_nil_iff.mpr (fun p hp => ?_)
  have husage : isUsage p = false := by
    rcases List.mem_append.mp hp with hp | hp
    · exact (not_forwarded_cases (List.mem_filter.mp hp).2).2.1
    · exact (h.plain hp).2.1
  cases p <;> first | rfl | cases husage

theorem Closing.parts_usage {c : Closing} (h : c.terminal.isTerminal = true) :
    c.parts.filterMap usageOf = c.usage.toList := by
  have hterminal : usageOf c.terminal = none := by
    revert h
    cases c.terminal <;> intro h <;> first | rfl | cases h
  rw [Closing.parts, List.filterMap_append, List.filterMap_cons, hterminal]
  cases c.usage <;> rfl

namespace ServerToolLoop

/-- **Every turn that the run over whole replies reaches is read alike**, from
some state on. -/
def AlikeFrom (l : ServerToolLoop) (owned : List String) (elapsed : ℕ → ℕ) :
    LoopState → List ScriptedTurn → Prop
  | _, [] => True
  | s, t :: turns => t.Alike l owned elapsed s.rounds ∧
      match l.turn owned elapsed s t.result with
      | (_, .again s') => l.AlikeFrom owned elapsed s' turns
      | (_, .stop _) => True

/-- Every turn that a request reaches is read alike. -/
def ReadsAlike (l : ServerToolLoop) (elapsed : ℕ → ℕ) (base : Prompt)
    (turns : List ScriptedTurn) : Prop :=
  ∀ working owned, l.inject base = .ok (working, owned) →
    l.AlikeFrom owned elapsed { working := working } turns

section Runs

variable {l : ServerToolLoop} {owned : List String} {elapsed : ℕ → ℕ} {s : LoopState}
  {s' : StreamState} {turns : List ScriptedTurn}

/-- **The loops simulate each other** as long as every turn is read alike. -/
theorem loops_agree (hturns : l.AlikeFrom owned elapsed s turns) (h : Simulates s s') :
    RunsAgree (l.runLoop owned elapsed s (turns.map ScriptedTurn.reply))
      (l.streamLoop owned elapsed s' (turns.map (fun t => .ok t.stream))) := by
  induction turns generalizing s s' with
  | nil =>
    refine ⟨rfl, fun o ho => ?_, fun e he => ⟨[], ?_⟩⟩
    · cases ho
    · obtain rfl := Except.error.inj he
      rfl
  | cons t turns ih =>
    obtain ⟨ht, hturns⟩ := hturns
    have hstep : StepsAgree (l.turn owned elapsed s t.result)
      (l.closeTurn owned elapsed s' t.held) := steps_agree h ht
    have hconsume := t.consume_stream
    obtain ⟨hdecided, hterminal⟩ :=
      closeTurn_decided l owned elapsed s' t.stream_clean t.held_buffered_callsOf
    have hseen := seen_usage hdecided.emits
    have hforwarded := consume_forwarded {} t.stream
    rw [hconsume] at hforwarded
    rw [List.map_cons, List.map_cons, ScriptedTurn.reply, runLoop]
    cases hturn : l.turn owned elapsed s t.result with
    | mk d step =>
      cases hclose : l.closeTurn owned elapsed s' t.held with
      | mk d' rest =>
        obtain ⟨emitted, step'⟩ := rest
        rw [hturn, hclose] at hstep
        rw [hturn] at hturns
        rw [hclose] at hseen hterminal
        cases step with
        | again σ =>
          cases step' with
          | stop closing => exact hstep.elim
          | again σ' =>
            obtain ⟨rfl, hsim⟩ := hstep
            obtain ⟨hdecisions, husage, hfailure⟩ := ih hturns hsim
            rw [streamLoop_again hconsume hclose]
            refine ⟨by simp [hdecisions], fun o ho => ?_, fun e he => ?_⟩
            · rw [okParts_append, List.filterMap_append]
              rw [StreamedTurn.seen, ← hforwarded] at hseen
              rw [hseen, List.nil_append]
              exact husage o ho
            · obtain ⟨parts, hparts⟩ := hfailure e he
              exact ⟨(t.body ++ t.ending).filter isForwarded ++ emitted ++ parts, by simp [hparts]⟩
        | stop o =>
          cases step' with
          | again σ' => exact hstep.elim
          | stop closing =>
            obtain ⟨rfl, hsame⟩ := hstep
            rw [streamLoop_stop hconsume hclose]
            refine ⟨rfl, fun o' ho => ?_, fun e he => by cases he⟩
            obtain rfl := Except.ok.inj ho
            have hitems := okParts_append ((t.body ++ t.ending).filter isForwarded ++ emitted
              ++ closing.parts) []
            rw [List.append_nil, show okParts [] = [] from rfl, List.append_nil] at hitems
            rw [hitems, List.filterMap_append]
            rw [StreamedTurn.seen, ← hforwarded] at hseen
            rw [hseen, List.nil_append, Closing.parts_usage (hterminal closing rfl), hsame]

/-- **Loops with the same decisions** read every turn alike. -/
theorem alikeFrom_of_decisions (h : Simulates s s')
    (hdecisions : (l.streamLoop owned elapsed s' (turns.map (fun t => .ok t.stream))).turns.map
        StreamedTurn.decision
      = (l.runLoop owned elapsed s (turns.map ScriptedTurn.reply)).turns.map
        (fun t => some t.2)) :
    l.AlikeFrom owned elapsed s turns := by
  induction turns generalizing s s' with
  | nil => trivial
  | cons t turns ih =>
    have hconsume := t.consume_stream
    rw [List.map_cons, List.map_cons, ScriptedTurn.reply, runLoop] at hdecisions
    -- The decisions on the first turn are the same, whatever follows.
    have hhead : (l.closeTurn owned elapsed s' t.held).1 = (l.turn owned elapsed s t.result).1 := by
      cases hturn : l.turn owned elapsed s t.result with
      | mk d step =>
        cases hclose : l.closeTurn owned elapsed s' t.held with
        | mk d' rest =>
          obtain ⟨emitted, step'⟩ := rest
          rw [hturn] at hdecisions
          cases step <;> cases step' <;>
            first
            | rw [streamLoop_again hconsume hclose] at hdecisions
              exact Option.some.inj (List.cons.inj hdecisions).1
            | rw [streamLoop_stop hconsume hclose] at hdecisions
              exact Option.some.inj (List.cons.inj hdecisions).1
    have ht : t.Alike l owned elapsed s.rounds := alike_of_decision h hhead
    have hstep := steps_agree h ht
    refine ⟨ht, ?_⟩
    cases hturn : l.turn owned elapsed s t.result with
    | mk d step =>
      cases hclose : l.closeTurn owned elapsed s' t.held with
      | mk d' rest =>
        obtain ⟨emitted, step'⟩ := rest
        rw [hturn, hclose] at hstep
        cases step with
        | stop o => trivial
        | again σ =>
          cases step' with
          | stop closing => exact hstep.elim
          | again σ' =>
            rw [hturn, streamLoop_again hconsume hclose] at hdecisions
            exact ih hstep.2 (List.cons.inj hdecisions).2

/-- Turns that give no occasion to differ are read alike, wherever a run has come to. -/
theorem alikeFrom_of_agreeable (h : ∀ t ∈ turns, t.Agreeable owned) :
    l.AlikeFrom owned elapsed s turns := by
  induction turns generalizing s with
  | nil => trivial
  | cons t turns ih =>
    obtain ⟨ht, hturns⟩ := List.forall_mem_cons.mp h
    refine ⟨ht.alike, ?_⟩
    cases l.turn owned elapsed s t.result with
    | mk d step =>
      cases step with
      | again s' => exact ih hturns
      | stop o => trivial

end Runs

/-- **A request behaves alike whether or not it streams exactly if every turn
that it reaches is read alike**: the same decisions on the same number of
turns, the same executed calls in the same order, the same usage and the same
failure. A script whose turns give no occasion to differ is one of these. -/
theorem runs_agree_iff (l : ServerToolLoop) (elapsed : ℕ → ℕ) (base : Prompt)
    (turns : List ScriptedTurn) :
    (Agree (l.runWithProvenance elapsed base (turns.map ScriptedTurn.reply))
        (l.runStream elapsed base (turns.map (fun t => .ok t.stream)))
      ↔ l.ReadsAlike elapsed base turns)
    ∧ ((∀ working owned, l.inject base = .ok (working, owned) →
        ∀ t ∈ turns, t.Agreeable owned) → l.ReadsAlike elapsed base turns) := by
  refine ⟨?_, fun h working owned hinject => alikeFrom_of_agreeable (h working owned hinject)⟩
  unfold runStream runWithProvenance ReadsAlike
  cases hinject : l.inject base with
  | error e => exact ⟨fun _ working owned h => (nomatch h), fun _ => ⟨rfl, rfl⟩⟩
  | ok injected =>
    obtain ⟨working, owned⟩ := injected
    have hsame : Simulates { working := working } { working := working } :=
      ⟨rfl, rfl, rfl, rfl, rfl⟩
    cases turns with
    | nil => exact ⟨fun _ working owned _ => trivial, fun _ => ⟨rfl, rfl⟩⟩
    | cons t turns =>
      constructor
      · intro hagree working owned h
        obtain ⟨rfl, rfl⟩ := Prod.mk.inj (Except.ok.inj h)
        exact alikeFrom_of_decisions hsame hagree.decisions
      · intro hturns
        exact loops_agree (hturns working owned rfl) hsame

/-! ### A call the two loops read differently -/

/-- A search with some metadata, streamed in two deltas. -/
def searchTurn (metadata : ProviderMetadata) : ScriptedTurn where
  blocks := [(.toolCall "c1" "search" "{}" false false metadata,
    [.toolCallDelta "c1" (some "search") "\x7b" metadata, .toolCallDelta "c1" none "\x7d" []])]
  streams := by
    intro b hb
    obtain rfl := List.mem_singleton.mp hb
    exact .call "c1" "search" "\x7b" ["\x7d"] false false metadata
  usage := none
  terminal := .finish .toolCalls

def answerTurn : ScriptedTurn where
  blocks := [(.text "found it" [], [.textDelta "found it"])]
  streams := by
    intro b hb
    obtain rfl := List.mem_singleton.mp hb
    exact .text ["found it"] []
  usage := some { promptTokens := 7, origin := .providerReported }
  terminal := .finish .stop

def namespaced : ProviderMetadata := [("openai", .object [("namespace", .string "docs")])]

/-- **Metadata changes the decision.** Over whole replies the call is
executed and the next turn answers; over streams it is handed back. -/
theorem searchTurn_namespaced_disagrees :
    (searchLoop.runWithProvenance (fun _ => 0) {}
        ([searchTurn namespaced, answerTurn].map ScriptedTurn.reply)).turns.map Prod.snd
      = [.execute [⟨"c1", "search", "{}"⟩] false, .answer]
    ∧ ∃ streamed, searchLoop.runStream (fun _ => 0) {}
        ([searchTurn namespaced, answerTurn].map (fun t => .ok t.stream)) = .ok streamed
      ∧ streamed.turns.map StreamedTurn.decision = [some .handBack] :=
  ⟨rfl, _, rfl, rfl⟩

/-- The names of the search loop. -/
theorem owned_searchLoop {working : Prompt} {owned : List String}
    (h : searchLoop.inject {} = .ok (working, owned)) : owned = ["search"] := by
  have hsearch : searchLoop.inject {} = .ok ({ tools := [.function "search" .null] },
    ["search"]) := rfl
  exact (Prod.mk.inj (Except.ok.inj (h.symm.trans hsearch))).2

-- A turn behind the answer is not reached, whatever it holds.
example : searchLoop.ReadsAlike (fun _ => 0) {}
    [searchTurn [], answerTurn, searchTurn namespaced] := by
  intro working owned h
  obtain rfl := owned_searchLoop h
  have hsearch : (searchTurn []).Agreeable ["search"] := by
    have hcalls : (searchTurn []).calls = [⟨"c1", "search", "{}", []⟩] := rfl
    exact ⟨by simp [searchTurn, isProviderExecuted], by simp [hcalls], by simp [hcalls],
      by simp [hcalls]⟩
  have hanswer : answerTurn.Agreeable ["search"] := by
    have hcalls : answerTurn.calls = [] := rfl
    exact ⟨by simp [answerTurn, isProviderExecuted], by simp [hcalls], by simp [hcalls],
      by simp [hcalls]⟩
  exact ⟨hsearch.alike, hanswer.alike, trivial⟩

end ServerToolLoop

end BitRouter.ServerTools
