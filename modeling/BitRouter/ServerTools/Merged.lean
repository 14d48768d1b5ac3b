import Mathlib.Data.List.Induction
import BitRouter.ServerTools.Stream

/-!
# The shape of the merged stream

What the caller of a streaming run sees, over every script of upstream
streams. Turn by turn it is the narration of the upstream followed by what
the loop emits for the turn, and it ends with one terminal, after the
accumulated usage if there is any, or with one failure. `Merged` says so,
which decision is taken on each turn and when, and what is emitted for it.

The calls of a turn are specified by its deltas alone (`callsOf`): one call
per id, with the last name given and all the arguments in order.
-/

namespace BitRouter.ServerTools

open Ai

/-! ## The parts of an upstream stream -/

abbrev Item := Except BitrouterError StreamPart

/-- The parts of a stream before it ends or fails. -/
def okParts : List Item → List StreamPart
  | .ok part :: items => part :: okParts items
  | _ => []

/-- A part the loop passes on as it arrives. -/
def isForwarded : StreamPart → Bool
  | .usage _ => false
  | .finish _ => false
  | .responseCompleted _ _ => false
  | .toolCallDelta _ _ _ _ => false
  | _ => true

/-- The narration of a stream. -/
def forwarded (stream : List Item) : List StreamPart := (okParts stream).filter isForwarded

def textOf : StreamPart → Option String
  | .textDelta text => some text
  | _ => none

def callDelta : StreamPart → Option CallDelta
  | .toolCallDelta id name arguments metadata => some ⟨id, name, arguments, metadata⟩
  | _ => none

def callDeltas (stream : List Item) : List CallDelta := (okParts stream).filterMap callDelta

/-- A part that shows an executed call or its result. -/
def isActivity : StreamPart → Bool
  | .serverToolCall _ _ _ _ _ => true
  | .serverToolResult _ _ _ _ => true
  | _ => false

def isUsage : StreamPart → Bool
  | .usage _ => true
  | _ => false

/-! ## The buffer of a turn -/

/-- The metadata of some deltas: the first one's, extended by the others. -/
def joinMetadata : List ProviderMetadata → ProviderMetadata
  | [] => []
  | m :: ms => ms.foldl ProviderMetadata.extend m

/-- **The call that the deltas of one id amount to**: the last name that
arrived, the concatenation of the arguments, and all the metadata. -/
def callOf (ds : List CallDelta) (id : String) : BufferedCall :=
  let own := ds.filter (fun d => d.id = id)
  { id := id
    name := (own.filterMap CallDelta.newName).getLast?.getD ""
    args := String.join (own.map CallDelta.arguments)
    providerMetadata := joinMetadata (own.map CallDelta.providerMetadata) }

/-- **The calls a list of deltas amounts to**, one for each id, in the order
in which the ids first came. -/
def callsOf (ds : List CallDelta) : List BufferedCall :=
  (ds.map CallDelta.id).eraseDups.map (callOf ds)

theorem string_join_concat (xs : List String) (x : String) :
    String.join (xs ++ [x]) = String.join xs ++ x := by
  simp [String.join, List.foldl_append]

theorem joinMetadata_concat {ms : List ProviderMetadata} (h : ms ≠ []) (m : ProviderMetadata) :
    joinMetadata (ms ++ [m]) = (joinMetadata ms).extend m := by
  cases ms with
  | nil => exact absurd rfl h
  | cons m' ms => exact List.foldl_append

/-- The name a fresh call is opened with. -/
theorem CallDelta.open_name (d : CallDelta) : d.open.name = d.newName.getD "" := by
  unfold CallDelta.open CallDelta.newName
  cases d.name with
  | none => rfl
  | some n =>
    by_cases h : n = ""
    · rw [Option.filter_some, if_neg (by simpa using h)]
      exact h
    · rw [Option.filter_some, if_pos (decide_eq_true h)]

theorem eraseDups_concat (ids : List String) (id : String) :
    (ids ++ [id]).eraseDups = if id ∈ ids then ids.eraseDups else ids.eraseDups ++ [id] := by
  rw [List.eraseDups_append, List.removeAll]
  by_cases h : id ∈ ids
  · rw [if_pos h, List.filter_cons_of_neg (by simpa using h)]
    exact List.append_nil _
  · rw [if_neg h, List.filter_cons_of_pos (by simpa using h)]
    rfl

theorem nodup_eraseDups (ids : List String) : ids.eraseDups.Nodup := by
  induction ids using List.reverseRecOn with
  | nil => exact List.nodup_nil
  | append_singleton ids id ih =>
    rw [eraseDups_concat]
    split
    · exact ih
    · rename_i hfresh
      refine List.nodup_append.mpr ⟨ih, by simp, fun x hx y hy heq => hfresh ?_⟩
      rw [List.mem_singleton.mp hy] at heq
      exact heq ▸ List.mem_eraseDups.mp hx

section CallOf

variable {ds : List CallDelta} {d : CallDelta} {id : String}

/-- A delta of another id changes nothing of a call. -/
theorem callOf_of_ne (h : id ≠ d.id) : callOf (ds ++ [d]) id = callOf ds id := by
  have hsame : (ds ++ [d]).filter (fun d => d.id = id) = ds.filter (fun d => d.id = id) := by
    simp [List.filter_append, Ne.symm h]
  rw [callOf, hsame]
  rfl

/-- A further delta is pushed to its call. -/
theorem callOf_push (h : d.id ∈ ds.map CallDelta.id) :
    callOf (ds ++ [d]) d.id = (callOf ds d.id).push d := by
  have hown : (ds ++ [d]).filter (fun d' => d'.id = d.id)
      = ds.filter (fun d' => d'.id = d.id) ++ [d] := by
    simp [List.filter_append]
  have hne : (ds.filter (fun d' => d'.id = d.id)).map CallDelta.providerMetadata ≠ [] := by
    obtain ⟨d', hd', hid⟩ := List.mem_map.mp h
    intro hnil
    have hmem : d' ∈ ds.filter (fun d' => d'.id = d.id) :=
      List.mem_filter.mpr ⟨hd', decide_eq_true hid⟩
    rw [List.map_eq_nil_iff.mp hnil] at hmem
    exact absurd hmem List.not_mem_nil
  rw [callOf, hown, List.filterMap_append, List.map_append, List.map_append, List.map_singleton,
    List.map_singleton, string_join_concat, joinMetadata_concat hne, BufferedCall.push]
  cases hname : d.newName with
  | none => simp [callOf, hname]
  | some name => simp [callOf, hname]

/-- The first delta of an id opens its call. -/
theorem callOf_open (h : d.id ∉ ds.map CallDelta.id) : callOf (ds ++ [d]) d.id = d.open := by
  have hown : (ds ++ [d]).filter (fun d' => d'.id = d.id) = [d] := by
    have hnone : ds.filter (fun d' => d'.id = d.id) = [] := by
      refine List.filter_eq_nil_iff.mpr (fun d' hd' heq => h ?_)
      rw [← of_decide_eq_true heq]
      exact List.mem_map_of_mem hd'
    rw [List.filter_append, hnone]
    simp
  have hopen : d.open = ⟨d.id, d.newName.getD "", d.arguments, d.providerMetadata⟩ := by
    rw [← CallDelta.open_name]
    rfl
  rw [callOf, hown, hopen]
  cases hname : d.newName with
  | none => simp [hname, String.join, joinMetadata]
  | some name => simp [hname, String.join, joinMetadata]

end CallOf

/-- One delta in a buffer of calls with distinct ids. -/
theorem bufferDelta_map {f : String → BufferedCall} (hf : ∀ id, (f id).id = id) (d : CallDelta)
    {ids : List String} (hnodup : ids.Nodup) :
    bufferDelta d (ids.map f) =
      if d.id ∈ ids then ids.map (fun id => if id = d.id then (f id).push d else f id)
      else ids.map f ++ [d.open] := by
  induction ids with
  | nil => rfl
  | cons id ids ih =>
    obtain ⟨hnot, hnodup⟩ := List.nodup_cons.mp hnodup
    rw [List.map_cons, bufferDelta, hf id]
    by_cases hid : id = d.id
    · have hrest : ids.map (fun id => if id = d.id then (f id).push d else f id) = ids.map f := by
        refine List.map_congr_left (fun other hother => if_neg ?_)
        rintro rfl
        exact hnot (hid ▸ hother)
      rw [if_pos hid, if_pos (hid ▸ List.mem_cons_self), List.map_cons, if_pos hid, hrest]
    · rw [if_neg hid, ih hnodup, List.map_cons, if_neg hid]
      by_cases hmem : d.id ∈ ids
      · rw [if_pos hmem, if_pos (List.mem_cons_of_mem _ hmem)]
      · rw [if_neg hmem, if_neg (by simp [hmem, Ne.symm hid]), List.cons_append]

/-- **The buffer is what the deltas amount to**: one delta. -/
theorem bufferDelta_callsOf (ds : List CallDelta) (d : CallDelta) :
    bufferDelta d (callsOf ds) = callsOf (ds ++ [d]) := by
  have hmem : d.id ∈ (ds.map CallDelta.id).eraseDups ↔ d.id ∈ ds.map CallDelta.id :=
    List.mem_eraseDups
  rw [callsOf, bufferDelta_map (fun _ => rfl) d (nodup_eraseDups _), callsOf, List.map_append,
    List.map_singleton, eraseDups_concat]
  by_cases h : d.id ∈ ds.map CallDelta.id
  · rw [if_pos (hmem.mpr h), if_pos h]
    refine List.map_congr_left (fun id _ => ?_)
    by_cases hid : id = d.id
    · rw [if_pos hid, hid, callOf_push h]
    · rw [if_neg hid, callOf_of_ne hid]
  · rw [if_neg (fun hin => h (hmem.mp hin)), if_neg h, List.map_append, List.map_singleton,
      callOf_open h]
    congr 1
    refine List.map_congr_left (fun id hid => (callOf_of_ne ?_).symm)
    rintro rfl
    exact h (List.mem_eraseDups.mp hid)

/-! ## Draining one stream -/

theorem observe_forwarded (t : StreamTurn) (p : StreamPart) :
    (t.observe p).2 = if isForwarded p then [p] else [] := by
  cases p <;> rfl

theorem observe_buffered (t : StreamTurn) (p : StreamPart) :
    (t.observe p).1.buffered = match callDelta p with
      | some d => bufferDelta d t.buffered
      | none => t.buffered := by
  cases p <;> rfl

theorem consume_forwarded (t : StreamTurn) (stream : List Item) :
    (consume t stream).1 = forwarded stream := by
  induction stream generalizing t with
  | nil => rfl
  | cons item stream ih =>
    cases item with
    | error e => rfl
    | ok p =>
      rw [consume, forwarded, okParts, List.filter_cons, observe_forwarded, ih]
      split <;> rfl

variable {t : StreamTurn}

/-- Draining a stream buffers what its deltas amount to. -/
theorem consume_buffer {t' : StreamTurn} {stream : List Item} (h : (consume t stream).2 = .ok t')
    {ds : List CallDelta} (hds : t.buffered = callsOf ds) :
    t'.buffered = callsOf (ds ++ callDeltas stream) := by
  induction stream generalizing t ds with
  | nil =>
    obtain rfl := Except.ok.inj h
    simpa [callDeltas, okParts] using hds
  | cons item stream ih =>
    cases item with
    | error e => cases h
    | ok p =>
      have hbuffered := observe_buffered t p
      have hdeltas : callDeltas (.ok p :: stream)
          = (callDelta p).toList ++ callDeltas stream := by
        rw [callDeltas, okParts, List.filterMap_cons]
        cases callDelta p <;> rfl
      rw [hdeltas, ← List.append_assoc]
      refine ih h ?_
      rw [hbuffered]
      cases callDelta p with
      | none => simpa using hds
      | some d =>
        show bufferDelta d t.buffered = callsOf (ds ++ [d])
        rw [hds, bufferDelta_callsOf]

/-- A stream fails exactly if one of its items does. -/
theorem consume_fails_iff (t : StreamTurn) (stream : List Item) :
    (∃ e, (consume t stream).2 = .error e) ↔ ∃ e, Except.error e ∈ stream := by
  induction stream generalizing t with
  | nil => simp [consume]
  | cons item stream ih =>
    cases item with
    | error e => exact ⟨fun _ => ⟨e, List.mem_cons_self⟩, fun _ => ⟨e, rfl⟩⟩
    | ok p =>
      rw [consume, ih]
      simp

/-! ## Every turn, and the whole run -/

def routerCall (b : BufferedCall) : RouterCall := ⟨b.id, b.name, b.args⟩

/-- **When a decision is taken**, by the named calls of a turn and the number
of turns executed before: a turn with a client-owned call is handed back, one
without calls is the answer, and otherwise all the calls are executed, unless
the bound is reached. -/
def ServerToolLoop.Decides (l : ServerToolLoop) (owned : List String) (elapsed : ℕ → ℕ)
    (rounds : ℕ) (calls : List BufferedCall) : Decision → Prop
  | .handBack => ∃ b ∈ calls, b.name ∉ owned ∨ b.providerMetadata ≠ []
  | .answer => calls = []
  | .bound => calls ≠ [] ∧ (∀ b ∈ calls, b.name ∈ owned ∧ b.providerMetadata = [])
      ∧ l.AtBound elapsed rounds
  | .execute executed _ => calls ≠ [] ∧ (∀ b ∈ calls, b.name ∈ owned ∧ b.providerMetadata = [])
      ∧ ¬ l.AtBound elapsed rounds ∧ executed = calls.map routerCall

namespace StreamedTurn

/-- What the caller sees of a turn. -/
def seen (t : StreamedTurn) : List StreamPart := forwarded t.stream ++ t.emitted

/-- The calls of a turn, without those whose name never arrived. -/
def calls (t : StreamedTurn) : List BufferedCall :=
  (callsOf (callDeltas t.stream)).filter (fun b => b.name ≠ "")

/-- The calls that are executed for a turn. -/
def executed (t : StreamedTurn) : List RouterCall :=
  match t.decision with
  | some (.execute calls _) => calls
  | _ => []

/-- **What is emitted for a decision**, after some executed calls: each
executed call followed by its result, or each call of a turn that is handed
back, whole. -/
def Emits (l : ServerToolLoop) (before : List RouterCall) (t : StreamedTurn) : Prop :=
  match t.decision with
  | some (.execute calls failed) =>
    failed = hadError (l.executeCalls before calls)
      ∧ (l.executeCalls before calls).map Prod.fst = calls
      ∧ t.emitted = (l.executeCalls before calls).flatMap fun r =>
          [.serverToolCall r.1.id r.1.name r.1.arguments (l.serverNameFor r.1.name) true,
            .serverToolResult r.1.id (some r.1.name) r.2.1 true]
  | some .handBack => t.emitted = t.calls.map fun b =>
      .toolCallDelta b.id (some b.name) b.args b.providerMetadata
  | _ => t.emitted = []

/-- **A turn is decided and told as it should be.** Only a stream that fails
is left undecided. -/
structure Decided (l : ServerToolLoop) (owned : List String) (elapsed : ℕ → ℕ) (rounds : ℕ)
    (before : List RouterCall) (t : StreamedTurn) : Prop where
  undecided : t.decision = none ↔ ∃ e, Except.error e ∈ t.stream
  decides : ∀ d, t.decision = some d → l.Decides owned elapsed rounds t.calls d
  emits : t.Emits l before

end StreamedTurn

/-- **The decomposition of a merged stream** into its turns and its ending,
after some rounds and the calls executed in them. -/
structure Decomposed (l : ServerToolLoop) (owned : List String) (elapsed : ℕ → ℕ) (rounds : ℕ)
    (before : List RouterCall) (script : List (Except BitrouterError (List Item)))
    (run : StreamRun) : Prop where
  /-- The turns are the answers of the upstream. -/
  answers : run.turns.map (fun t => .ok t.stream) <+: script
  /-- The parts of the turns, then the usage if any with one terminal, or one
  failure. -/
  ending : ∃ usage : Option Usage, ∃ last : Item,
    run.items = (run.turns.flatMap StreamedTurn.seen ++ (usage.map StreamPart.usage).toList).map
      .ok ++ [last]
      ∧ ((∃ p, last = .ok p ∧ p.isTerminal = true) ∨ (usage = none ∧ ∃ e, last = .error e))
  /-- Each turn is decided after the rounds and the executed calls before it. -/
  decided : ∀ (i : ℕ) (t : StreamedTurn), run.turns[i]? = some t →
    t.Decided l owned elapsed (rounds + i)
      (before ++ (run.turns.take i).flatMap StreamedTurn.executed)
  /-- Only an executed turn is followed by another. -/
  goesOn : ∀ t ∈ run.turns.dropLast, ∃ calls failed, t.decision = some (.execute calls failed)

/-- **The shape of a merged stream**, and what of it is the upstream's. -/
structure Merged (l : ServerToolLoop) (owned : List String) (elapsed : ℕ → ℕ)
    (script : List (Except BitrouterError (List Item))) (run : StreamRun) : Prop
    extends Decomposed l owned elapsed 0 [] script run where
  /-- No terminal and no usage before the end. -/
  plain : ∀ t ∈ run.turns, ∀ p ∈ t.seen, p.isTerminal = false ∧ isUsage p = false
  /-- The text is the upstream's. -/
  texts : (okParts run.items).filterMap textOf =
    run.turns.flatMap (fun t => (okParts t.stream).filterMap textOf)
  /-- The activity is the upstream's and what the loop emits. -/
  activity : (okParts run.items).filter isActivity =
    run.turns.flatMap (fun t => (okParts t.stream).filter isActivity
      ++ t.emitted.filter isActivity)
  /-- No delta of the upstream's is seen, only those emitted. -/
  deltas : (okParts run.items).filterMap callDelta =
    run.turns.flatMap (fun t => t.emitted.filterMap callDelta)

/-! ## What the parts of a turn are not -/

theorem not_forwarded_cases {p : StreamPart} (h : isForwarded p = true) :
    p.isTerminal = false ∧ isUsage p = false ∧ callDelta p = none := by
  cases p <;> first | exact ⟨rfl, rfl, rfl⟩ | cases h

theorem forwarded_texts (stream : List Item) :
    (forwarded stream).filterMap textOf = (okParts stream).filterMap textOf := by
  rw [forwarded, List.filterMap_filter]
  refine List.filterMap_congr (fun p _ => ?_)
  cases p <;> rfl

theorem forwarded_activity (stream : List Item) :
    (forwarded stream).filter isActivity = (okParts stream).filter isActivity := by
  rw [forwarded, List.filter_filter]
  refine List.filter_congr (fun p _ => ?_)
  cases p <;> rfl

theorem forwarded_deltas (stream : List Item) : (forwarded stream).filterMap callDelta = [] :=
  List.filterMap_eq_nil_iff.mpr
    (fun _ hp => (not_forwarded_cases (List.mem_filter.mp hp).2).2.2)

/-- What is emitted is neither a terminal nor usage nor text. -/
theorem StreamedTurn.Emits.plain {l : ServerToolLoop} {before : List RouterCall}
    {t : StreamedTurn} (h : t.Emits l before) {p : StreamPart} (hp : p ∈ t.emitted) :
    p.isTerminal = false ∧ isUsage p = false ∧ textOf p = none := by
  have hnone (hempty : t.emitted = []) :
      p.isTerminal = false ∧ isUsage p = false ∧ textOf p = none := by
    rw [hempty] at hp
    exact absurd hp List.not_mem_nil
  unfold StreamedTurn.Emits at h
  split at h
  · rw [h.2.2] at hp
    obtain ⟨r, -, hp⟩ := List.mem_flatMap.mp hp
    rcases List.mem_pair.mp hp with rfl | rfl <;> exact ⟨rfl, rfl, rfl⟩
  · rw [h] at hp
    obtain ⟨b, -, rfl⟩ := List.mem_map.mp hp
    exact ⟨rfl, rfl, rfl⟩
  · exact hnone h

/-! ## The step of a turn and the run -/

namespace ServerToolLoop

variable {l : ServerToolLoop} {owned : List String} {elapsed : ℕ → ℕ}

/-- A call is the client's by its name or by its metadata. -/
theorem isRouter_iff (b : BufferedCall) :
    StreamTurn.isRouter owned b = true ↔ b.name ∈ owned ∧ b.providerMetadata = [] := by
  simp [StreamTurn.isRouter]

theorem hasClient_iff (owned : List String) (t : StreamTurn) : t.hasClient owned = true
    ↔ ∃ b ∈ t.named, b.name ∉ owned ∨ b.providerMetadata ≠ [] := by
  simp [StreamTurn.hasClient, isRouter_iff, imp_iff_not_or]

theorem routers_of_not_hasClient (h : ¬ t.hasClient owned = true) {b : BufferedCall}
    (hb : b ∈ t.named) : b.name ∈ owned ∧ b.providerMetadata = [] := by
  by_contra hnot
  exact h ((hasClient_iff owned t).mpr ⟨b, hb, by rwa [not_and_or] at hnot⟩)

/-- Where no call is the client's, the router's calls are all the calls. -/
theorem routerCalls_of_not_hasClient (h : ¬ t.hasClient owned = true) :
    t.routerCalls owned = t.named.map routerCall := by
  have hall : t.named.filter (StreamTurn.isRouter owned) = t.named :=
    List.filter_eq_self.mpr
      (fun b hb => (isRouter_iff b).mpr (routers_of_not_hasClient h hb))
  rw [StreamTurn.routerCalls, hall]
  rfl

/-- Every call is executed once, in order. -/
theorem executeCalls_calls (l : ServerToolLoop) (before calls : List RouterCall) :
    (l.executeCalls before calls).map Prod.fst = calls := by
  induction calls generalizing before with
  | nil => rfl
  | cons call calls ih => rw [executeCalls, List.map_cons, ih]

theorem terminal_isTerminal (t : StreamTurn) : t.terminal.isTerminal = true := by
  unfold StreamTurn.terminal
  cases t.responseCompletion <;> rfl

@[simp] theorem observe_rounds (s : StreamState) (u : Option Usage) :
    (s.observe u).rounds = s.rounds := by cases u <;> rfl

@[simp] theorem observe_executed (s : StreamState) (u : Option Usage) :
    (s.observe u).executed = s.executed := by cases u <;> rfl

/-- **The decision at the end of an upstream stream** is taken when it should be. -/
theorem closeTurn_decides (l : ServerToolLoop) (owned : List String) (elapsed : ℕ → ℕ)
    (s : StreamState) (t : StreamTurn) :
    l.Decides owned elapsed s.rounds t.named (l.closeTurn owned elapsed s t).1 := by
  unfold closeTurn
  simp only [observe_rounds, observe_executed]
  split
  · rename_i hclient
    exact (hasClient_iff owned t).mp hclient
  · rename_i hclient
    have hrouters : ∀ b ∈ t.named, b.name ∈ owned ∧ b.providerMetadata = [] :=
      fun b hb => routers_of_not_hasClient hclient hb
    rw [routerCalls_of_not_hasClient hclient]
    split
    · rename_i hempty
      exact List.map_eq_nil_iff.mp (List.isEmpty_iff.mp hempty)
    · rename_i hcalls
      have hne : t.named ≠ [] := fun hnil => hcalls (by rw [hnil]; rfl)
      split
      · rename_i hbound
        exact ⟨hne, hrouters, hbound⟩
      · rename_i hbound
        exact ⟨hne, hrouters, hbound, rfl⟩

/-- **The end of one upstream stream**: the decision is taken when it should
be, what is emitted is what it says, and what closes the merged stream is a
terminal. -/
theorem closeTurn_decided (l : ServerToolLoop) (owned : List String) (elapsed : ℕ → ℕ)
    (s : StreamState) {stream : List Item} (hclean : ¬ ∃ e, Except.error e ∈ stream)
    (hbuffer : t.buffered = callsOf (callDeltas stream)) :
    StreamedTurn.Decided l owned elapsed s.rounds s.executed
        ⟨stream, some (l.closeTurn owned elapsed s t).1, (l.closeTurn owned elapsed s t).2.1⟩
      ∧ ∀ closing, (l.closeTurn owned elapsed s t).2.2 = .stop closing →
        closing.terminal.isTerminal = true := by
  have hnamed : (callsOf (callDeltas stream)).filter (fun b => b.name ≠ "") = t.named := by
    rw [StreamTurn.named, hbuffer]
  have hdecides := closeTurn_decides l owned elapsed s t
  refine ⟨⟨⟨fun h => absurd h (Option.some_ne_none _), fun h => absurd h hclean⟩,
    fun d hd => ?_, ?_⟩, fun closing h => ?_⟩
  · obtain rfl := Option.some.inj hd
    show l.Decides owned elapsed s.rounds ((callsOf (callDeltas stream)).filter _) _
    rw [hnamed]
    exact hdecides
  · unfold closeTurn
    simp only [observe_executed]
    split
    · exact congrArg (List.map BufferedCall.delta) hnamed.symm
    · split
      · rfl
      · split
        · rfl
        · exact ⟨rfl, executeCalls_calls l _ _, rfl⟩
  · unfold closeTurn at h
    dsimp only at h
    split at h
    · obtain rfl := Step.stop.inj h
      exact terminal_isTerminal t
    · split at h
      · obtain rfl := Step.stop.inj h
        exact terminal_isTerminal t
      · split at h
        · obtain rfl := Step.stop.inj h
          rfl
        · split at h
          · obtain rfl := Step.stop.inj h
            rfl
          · cases h

/-- A turn that goes on is executed, and its calls and its round are counted. -/
theorem closeTurn_again {s s' : StreamState} {d : Decision} {emitted : List StreamPart}
    (h : l.closeTurn owned elapsed s t = (d, emitted, .again s')) :
    ∃ calls failed, d = .execute calls failed ∧ s'.rounds = s.rounds + 1
      ∧ s'.executed = s.executed ++ calls := by
  unfold closeTurn at h
  simp only [observe_executed] at h
  split at h
  · cases h
  · split at h
    · cases h
    · split at h
      · cases h
      · split at h
        · cases h
        · cases h
          refine ⟨_, _, rfl, ?_, ?_⟩
          · rw [afterStreamCalls, observe_rounds]
          · rw [afterStreamCalls, observe_executed]

theorem mem_dropLast_cons {α : Type} {a b : α} {as : List α} (h : b ∈ (a :: as).dropLast) :
    b = a ∨ b ∈ as.dropLast := by
  cases as with
  | nil => exact absurd h List.not_mem_nil
  | cons a' as => exact List.mem_cons.mp h

/-- A turn in front of a run that is decomposed after it. -/
theorem decided_cons {rounds : ℕ} {before calls : List RouterCall} {failed : Bool}
    {t : StreamedTurn} {turns : List StreamedTurn}
    (ht : t.Decided l owned elapsed rounds before) (hd : t.decision = some (.execute calls failed))
    (hturns : ∀ (i : ℕ) (t : StreamedTurn), turns[i]? = some t →
      t.Decided l owned elapsed (rounds + 1 + i)
        (before ++ calls ++ (turns.take i).flatMap StreamedTurn.executed))
    (i : ℕ) (t' : StreamedTurn) (h : (t :: turns)[i]? = some t') :
    t'.Decided l owned elapsed (rounds + i)
      (before ++ ((t :: turns).take i).flatMap StreamedTurn.executed) := by
  cases i with
  | zero =>
    obtain rfl := Option.some.inj h
    rw [List.take_zero, List.flatMap_nil, List.append_nil]
    exact ht
  | succ i =>
    have hexecuted : t.executed = calls := by rw [StreamedTurn.executed, hd]
    rw [List.take_succ_cons, List.flatMap_cons, hexecuted, ← List.append_assoc,
      show rounds + (i + 1) = rounds + 1 + i from by omega]
    exact hturns i t' h

/-- The one turn of a run that stops. -/
theorem decided_singleton {rounds : ℕ} {before : List RouterCall} {t : StreamedTurn}
    (ht : t.Decided l owned elapsed rounds before) (i : ℕ) (t' : StreamedTurn)
    (h : [t][i]? = some t') :
    t'.Decided l owned elapsed (rounds + i)
      (before ++ ([t].take i).flatMap StreamedTurn.executed) := by
  cases i with
  | zero =>
    obtain rfl := Option.some.inj h
    rw [List.take_zero, List.flatMap_nil, List.append_nil]
    exact ht
  | succ i => cases h

/-- **Every run is decomposed** into its turns and its ending. -/
theorem streamLoop_decomposed (l : ServerToolLoop) (owned : List String) (elapsed : ℕ → ℕ)
    (s : StreamState) (script : List (Except BitrouterError (List Item))) :
    Decomposed l owned elapsed s.rounds s.executed script
      (l.streamLoop owned elapsed s script) := by
  induction script generalizing s with
  | nil =>
    exact ⟨List.nil_prefix, ⟨none, .error scriptEnd, rfl, Or.inr ⟨rfl, _, rfl⟩⟩,
      fun _ _ ht => absurd ht (by simp [streamLoop]), fun t ht => absurd ht List.not_mem_nil⟩
  | cons answer script ih =>
    cases answer with
    | error e =>
      exact ⟨List.nil_prefix, ⟨none, .error e, rfl, Or.inr ⟨rfl, e, rfl⟩⟩,
        fun _ _ ht => absurd ht (by simp [streamLoop]), fun t ht => absurd ht List.not_mem_nil⟩
    | ok stream =>
      have hforwarded := consume_forwarded {} stream
      have hfails := consume_fails_iff {} stream
      cases hconsume : consume {} stream with
      | mk parts outcome =>
        rw [hconsume] at hforwarded hfails
        subst hforwarded
        cases outcome with
        | error e =>
          have hdecided : StreamedTurn.Decided l owned elapsed s.rounds s.executed
              ⟨stream, none, []⟩ :=
            ⟨⟨fun _ => hfails.mp ⟨e, rfl⟩, fun _ => rfl⟩, fun d hd => absurd hd (by simp), rfl⟩
          rw [streamLoop_failed hconsume]
          refine ⟨by simp, ⟨none, .error e, ?_, Or.inr ⟨rfl, e, rfl⟩⟩,
            decided_singleton hdecided, fun t ht => absurd ht List.not_mem_nil⟩
          simp [StreamedTurn.seen]
        | ok t =>
          have hclean : ¬ ∃ e, Except.error e ∈ stream :=
            fun h => absurd (hfails.mpr h).choose_spec (by simp)
          have hbuffer : t.buffered = callsOf (callDeltas stream) :=
            @consume_buffer {} t stream (by rw [hconsume]) [] rfl
          obtain ⟨hdecided, hclosing⟩ := closeTurn_decided l owned elapsed s hclean hbuffer
          cases hclose : l.closeTurn owned elapsed s t with
          | mk d rest =>
            obtain ⟨emitted, step⟩ := rest
            rw [hclose] at hdecided hclosing
            cases step with
            | stop closing =>
              rw [streamLoop_stop hconsume hclose]
              refine ⟨by simp, ⟨closing.usage, .ok closing.terminal, ?_,
                Or.inl ⟨_, rfl, hclosing closing rfl⟩⟩, decided_singleton hdecided,
                fun t ht => absurd ht List.not_mem_nil⟩
              simp [StreamedTurn.seen, Closing.parts]
            | again s' =>
              obtain ⟨calls, failed, rfl, hrounds, hexecuted⟩ := closeTurn_again hclose
              rw [streamLoop_again hconsume hclose]
              obtain ⟨hanswers, ⟨usage, last, hitems, hlast⟩, hturns, hgoes⟩ := ih s'
              rw [hrounds, hexecuted] at hturns
              refine ⟨by simpa using hanswers, ⟨usage, last, ?_, hlast⟩,
                decided_cons hdecided rfl hturns, fun t ht => ?_⟩
              · simp [StreamedTurn.seen, hitems]
              · rcases mem_dropLast_cons ht with rfl | ht
                · exact ⟨calls, failed, rfl⟩
                · exact hgoes t ht

end ServerToolLoop

/-! ## What of a merged stream is the upstream's -/

theorem okParts_append (parts : List StreamPart) (items : List Item) :
    okParts (parts.map .ok ++ items) = parts ++ okParts items := by
  induction parts with
  | nil => rfl
  | cons p parts ih => rw [List.map_cons, List.cons_append, okParts, ih, List.cons_append]

section

variable {run : StreamRun} {script : List (Except BitrouterError (List Item))} {l : ServerToolLoop}
  {owned : List String} {elapsed : ℕ → ℕ} (h : Decomposed l owned elapsed 0 [] script run)

include h

/-- After the parts of the turns there is no text, activity or delta. -/
theorem Decomposed.okParts_items : ∃ tail, okParts run.items =
      run.turns.flatMap StreamedTurn.seen ++ tail
        ∧ ∀ p ∈ tail, textOf p = none ∧ isActivity p = false ∧ callDelta p = none := by
  have hterminal {p : StreamPart} (hp : p.isTerminal = true) :
      textOf p = none ∧ isActivity p = false ∧ callDelta p = none := by
    cases p <;> first | exact ⟨rfl, rfl, rfl⟩ | cases hp
  obtain ⟨usage, last, hitems, hlast⟩ := h.ending
  rw [hitems, okParts_append]
  refine ⟨(usage.map StreamPart.usage).toList ++ okParts [last], by rw [List.append_assoc],
    fun p hp => ?_⟩
  rcases List.mem_append.mp hp with hp | hp
  · obtain ⟨u, -, rfl⟩ := Option.map_eq_some_iff.mp (Option.mem_toList.mp hp)
    exact ⟨rfl, rfl, rfl⟩
  · rcases hlast with ⟨q, rfl, hq⟩ | ⟨-, e, rfl⟩
    · rw [List.mem_singleton.mp hp]
      exact hterminal hq
    · exact absurd hp List.not_mem_nil

theorem Decomposed.emits {t : StreamedTurn} (ht : t ∈ run.turns) :
    ∃ before, t.Emits l before := by
  obtain ⟨i, hi⟩ := List.mem_iff_getElem?.mp ht
  exact ⟨_, (h.decided i t hi).emits⟩

theorem Decomposed.merged : Merged l owned elapsed script run := by
  obtain ⟨tail, hparts, htail⟩ := h.okParts_items
  refine ⟨h, fun t ht p hp => ?_, ?_, ?_, ?_⟩
  · rcases List.mem_append.mp hp with hp | hp
    · obtain ⟨hterminal, husage, -⟩ := not_forwarded_cases (List.mem_filter.mp hp).2
      exact ⟨hterminal, husage⟩
    · obtain ⟨before, hemits⟩ := h.emits ht
      obtain ⟨hterminal, husage, -⟩ := hemits.plain hp
      exact ⟨hterminal, husage⟩
  · have hrest : tail.filterMap textOf = [] :=
      List.filterMap_eq_nil_iff.mpr (fun p hp => (htail p hp).1)
    rw [hparts, List.filterMap_append, hrest, List.append_nil, List.filterMap_flatMap]
    refine List.flatMap_congr (fun t ht => ?_)
    obtain ⟨before, hemits⟩ := h.emits ht
    have hemitted : t.emitted.filterMap textOf = [] :=
      List.filterMap_eq_nil_iff.mpr (fun p hp => (hemits.plain hp).2.2)
    rw [StreamedTurn.seen, List.filterMap_append, hemitted, List.append_nil, forwarded_texts]
  · have hrest : tail.filter isActivity = [] :=
      List.filter_eq_nil_iff.mpr (fun p hp => by rw [(htail p hp).2.1]; exact Bool.false_ne_true)
    rw [hparts, List.filter_append, hrest, List.append_nil, List.filter_flatMap]
    refine List.flatMap_congr (fun t _ => ?_)
    rw [StreamedTurn.seen, List.filter_append, forwarded_activity]
  · have hrest : tail.filterMap callDelta = [] :=
      List.filterMap_eq_nil_iff.mpr (fun p hp => (htail p hp).2.2)
    rw [hparts, List.filterMap_append, hrest, List.append_nil, List.filterMap_flatMap]
    refine List.flatMap_congr (fun t _ => ?_)
    rw [StreamedTurn.seen, List.filterMap_append, forwarded_deltas, List.nil_append]

end

/-- **Every streaming run is merged as it should be**: for any script of
upstream streams, failures included, once there is a stream to return, under
the names that the injection gives to the router. -/
theorem ServerToolLoop.runStream_merged (l : ServerToolLoop) (elapsed : ℕ → ℕ) (base : Prompt)
    (script : List (Except BitrouterError (List Item))) {run : StreamRun}
    (h : l.runStream elapsed base script = .ok run) :
    ∃ working owned, l.inject base = .ok (working, owned) ∧ Merged l owned elapsed script run := by
  obtain ⟨⟨working, owned⟩, hinject, h⟩ := bind_eq_ok.mp h
  refine ⟨working, owned, hinject, ?_⟩
  dsimp only at h
  split at h
  · cases h
  · cases h
  · obtain rfl := pure_eq_ok.mp h
    exact (l.streamLoop_decomposed owned elapsed { working := working } script).merged

/-- Two searches, one of them in two fragments and one that fails to name its
call, then a turn that is handed back with all its calls. -/
def searchStreams : List (Except BitrouterError (List Item)) :=
  [.ok [.ok (.textDelta "let me see"), .ok (.toolCallDelta "c1" (some "search") "\x7b" []),
      .ok (.toolCallDelta "c2" none "lost" []), .ok (.toolCallDelta "c1" none "\x7d" []),
      .ok (.finish .toolCalls)],
    .ok [.ok (.toolCallDelta "c3" (some "search") "\x7b\x7d" []),
      .ok (.usage { promptTokens := 3 }), .ok (.finish .toolCalls)],
    .ok [.ok (.textDelta "found it"), .ok (.toolCallDelta "c4" (some "open") "1" []),
      .ok (.toolCallDelta "c5" (some "search") "2" []), .ok (.finish .toolCalls)]]

/-- Both searches are executed and the last turn is handed back whole. -/
theorem runStream_merged_search : ∃ run working owned,
    searchLoop.runStream (fun _ => 0) {} searchStreams = .ok run
      ∧ run.turns.map StreamedTurn.decision
        = [some (.execute [⟨"c1", "search", "\x7b\x7d"⟩] false),
          some (.execute [⟨"c3", "search", "\x7b\x7d"⟩] false), some .handBack]
      ∧ searchLoop.inject {} = .ok (working, owned)
      ∧ Merged searchLoop owned (fun _ => 0) searchStreams run := by
  obtain ⟨working, owned, hinject, hmerged⟩ :=
    searchLoop.runStream_merged (fun _ => 0) {} searchStreams rfl
  exact ⟨_, working, owned, rfl, rfl, hinject, hmerged⟩

end BitRouter.ServerTools
