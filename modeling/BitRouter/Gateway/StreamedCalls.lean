import BitRouter.Ai.Types
import BitRouter.Data.Along

/-!
# The calls and the reasoning of a stream

What the parts of a stream say, read off the parts themselves: the texts of
its deltas, its tool calls, each with all the fragments of its id, and its
reasoning blocks that end with a signature. An encoder is compared with this.
-/

namespace BitRouter.Gateway

open Ai

/-- A call whose fragments are streamed. -/
structure StreamedCall where
  id : String
  name : String
  arguments : String
  deriving DecidableEq, Repr

/-! ## Calls -/

/-- The name of a call, if a delta gives one. Some upstreams repeat an empty
name with every fragment. -/
def givenName (name : Option String) : Option String := name.filter (· ≠ "")

def introduces : StreamPart → Option (String × String)
  | .toolCallDelta id name _ _ => (givenName name).map fun name => (id, name)
  | _ => none

/-- The fragment a part adds to the arguments of a call. -/
def fragment (id : String) : StreamPart → Option String
  | .toolCallDelta other _ arguments _ => if other = id then some arguments else none
  | _ => none

def introductions (parts : List StreamPart) : List (String × String) := parts.filterMap introduces

def argumentsOf (id : String) (parts : List StreamPart) : String :=
  String.join (parts.filterMap (fragment id))

/-- **The calls of a stream**, in the order they are introduced in. -/
def calls (parts : List StreamPart) : List StreamedCall :=
  (introductions parts).map fun (id, name) => { id, name, arguments := argumentsOf id parts }

/-- **Each call is introduced once**, by a delta with a name, before its other
fragments. -/
def Introduced : List StreamPart → Prop :=
  Along fun pre part =>
    match part with
    | .toolCallDelta id _ _ _ =>
      if (introduces part).isSome then ∀ y ∈ pre, fragment id y = none
      else id ∈ (introductions pre).map Prod.fst
    | _ => True

/-- **The last part of a stream is its only terminal.** -/
def EndsOnce (parts : List StreamPart) : Prop :=
  ∃ body last, parts = body ++ [last] ∧ last.isTerminal = true
    ∧ ∀ part ∈ body, part.isTerminal = false

section Calls

variable {parts pre post : List StreamPart} {part : StreamPart} {id name arguments : String}
  {metadata : ProviderMetadata}

theorem introductions_append :
    introductions (pre ++ post) = introductions pre ++ introductions post :=
  List.filterMap_append

theorem argumentsOf_append (id : String) :
    argumentsOf id (pre ++ post) = argumentsOf id pre ++ argumentsOf id post := by
  unfold argumentsOf
  rw [List.filterMap_append, String.join_append]

theorem argumentsOf_singleton : argumentsOf id [part] = (fragment id part).getD "" := by
  unfold argumentsOf
  cases h : fragment id part with
  | none => rw [List.filterMap_cons_none h]; rfl
  | some value => rw [List.filterMap_cons_some h, List.filterMap_nil]; simp

theorem argumentsOf_eq_empty
    (h : ∀ y ∈ parts, fragment id y = none) : argumentsOf id parts = "" := by
  unfold argumentsOf
  rw [List.filterMap_eq_nil_iff.mpr h]
  rfl

/-- The calls of a longer stream: those there were, with their new fragments,
and the new ones. -/
theorem calls_append : calls (pre ++ post)
    = (calls pre).map (fun call =>
        { call with arguments := call.arguments ++ argumentsOf call.id post })
      ++ (introductions post).map fun (id, name) =>
        { id, name, arguments := argumentsOf id (pre ++ post) } := by
  show (introductions (pre ++ post)).map _ = _
  rw [introductions_append, List.map_append]
  congr 1
  show _ = ((introductions pre).map _).map _
  rw [List.map_map]
  refine List.map_congr_left fun call _ => ?_
  show StreamedCall.mk _ _ _ = _
  rw [argumentsOf_append]
  rfl

theorem fragment_of_introduces (h : introduces part = some (id, name)) :
    ∃ arguments, fragment id part = some arguments := by
  unfold introduces at h
  split at h
  · obtain ⟨name, -, hcall⟩ := Option.map_eq_some_iff.mp h
    obtain ⟨rfl, -⟩ := Prod.mk.inj hcall
    exact ⟨_, if_pos rfl⟩
  · exact absurd h (by simp)

theorem not_introduced (h : ∀ y ∈ parts, fragment id y = none) :
    id ∉ (introductions parts).map Prod.fst := by
  intro hid
  obtain ⟨⟨other, name⟩, hmem, rfl⟩ := List.mem_map.mp hid
  obtain ⟨part, hpart, hname⟩ := List.mem_filterMap.mp hmem
  obtain ⟨arguments, hsome⟩ := fragment_of_introduces hname
  rw [h part hpart] at hsome
  exact absurd hsome (by simp)

theorem map_id_calls : (calls parts).map (·.id) = (introductions parts).map Prod.fst := by
  unfold calls
  rw [List.map_map]
  rfl

theorem arguments_of_mem_calls {call : StreamedCall} (h : call ∈ calls parts) :
    call.arguments = argumentsOf call.id parts := by
  obtain ⟨⟨id, name⟩, -, rfl⟩ := List.mem_map.mp h
  rfl

namespace Introduced

theorem of_concat (h : Introduced (parts ++ [part])) : Introduced parts := (along_concat.mp h).1

theorem fresh (h : Introduced (parts ++ [part])) (hpart : introduces part = some (id, name)) :
    ∀ y ∈ parts, fragment id y = none := by
  have hlast := (along_concat.mp h).2
  cases part with
  | toolCallDelta other name arguments metadata =>
    obtain ⟨name, -, hcall⟩ := Option.map_eq_some_iff.mp hpart
    obtain ⟨rfl, -⟩ := Prod.mk.inj hcall
    dsimp only at hlast
    rwa [if_pos (by rw [hpart]; rfl)] at hlast
  | _ => exact absurd hpart (by simp [introduces])

/-- **No id is introduced twice.** -/
theorem nodup (h : Introduced parts) : ((calls parts).map (·.id)).Nodup := by
  rw [map_id_calls]
  induction parts using List.reverseRecOn with
  | nil => exact List.nodup_nil
  | append_singleton parts part ih =>
    rw [introductions_append, List.map_append]
    cases hpart : introduces part with
    | none =>
      have hnone : introductions [part] = [] := List.filterMap_cons_none hpart
      rw [hnone, List.map_nil, List.append_nil]
      exact ih h.of_concat
    | some call =>
      have hsome : introductions [part] = [call] := List.filterMap_cons_some hpart
      rw [hsome, List.map_singleton]
      have hfresh := not_introduced (h.fresh hpart)
      exact List.nodup_append.mpr ⟨ih h.of_concat, by simp,
        fun id hid other hother heq => hfresh (by
          rw [← List.mem_singleton.mp hother, ← heq]
          exact hid)⟩

/-- A new call. -/
theorem calls_named {given : Option String} (hname : givenName given = some name)
    (h : Introduced (parts ++ [.toolCallDelta id given arguments metadata])) :
    calls (parts ++ [.toolCallDelta id given arguments metadata])
      = calls parts ++ [⟨id, name, arguments⟩] := by
  have hpart : introduces (.toolCallDelta id given arguments metadata) = some (id, name) :=
    Option.map_eq_some_iff.mpr ⟨name, hname, rfl⟩
  have hfresh := h.fresh hpart
  have hsome : introductions [.toolCallDelta id given arguments metadata] = [(id, name)] :=
    List.filterMap_cons_some hpart
  rw [calls_append, hsome]
  congr 1
  · -- No other call has this id.
    refine (List.map_congr_left fun call hcall => ?_).trans (List.map_id _)
    have hne : call.id ≠ id := by
      rintro rfl
      refine not_introduced hfresh ?_
      rw [← map_id_calls]
      exact List.mem_map_of_mem hcall
    show StreamedCall.mk _ _ _ = call
    rw [argumentsOf_singleton, fragment, if_neg (Ne.symm hne)]
    show StreamedCall.mk _ _ (_ ++ "") = call
    rw [String.append_empty]
  · show [StreamedCall.mk _ _ _] = _
    rw [argumentsOf_append, argumentsOf_eq_empty hfresh, argumentsOf_singleton,
      fragment, if_pos rfl]
    simp

end Introduced

theorem calls_concat (hpart : introduces part = none) :
    calls (parts ++ [part]) = (calls parts).map fun call =>
      { call with arguments := call.arguments ++ (fragment call.id part).getD "" } := by
  have hnone : introductions [part] = [] := List.filterMap_cons_none hpart
  rw [calls_append, hnone, List.map_nil, List.append_nil]
  simp only [argumentsOf_singleton]

theorem calls_concat_of_none (hpart : ∀ id, fragment id part = none) :
    calls (parts ++ [part]) = calls parts := by
  have hnone : introduces part = none := by
    cases h : introduces part with
    | none => rfl
    | some call =>
      obtain ⟨arguments, harguments⟩ := fragment_of_introduces h
      rw [hpart] at harguments
      exact absurd harguments (by simp)
  rw [calls_concat hnone]
  simp [hpart]

end Calls

/-! ## Reasoning -/

/-- The text a part adds to the reasoning. -/
def reasoningText : StreamPart → Option String
  | .other (.reasoningDelta text _) => some text
  | _ => none

def reasoningTexts (parts : List StreamPart) : String :=
  String.join (parts.filterMap reasoningText)

/-- **A block of reasoning that is open**: the id it was started under, unless
it began with a delta, and its text so far. -/
structure ReasoningBlock where
  id : Option String
  text : String
  deriving DecidableEq, Repr

/-- **The reasoning of a stream**: the blocks that are open, the innermost one
first, and the text and signature of those that were ended with one. -/
structure ReasoningLog where
  opened : List ReasoningBlock := []
  sealed : List (String × String) := []

namespace ReasoningLog

/-- A delta belongs to the innermost open block, and opens one if there is none. -/
def extend (text : String) : List ReasoningBlock → List ReasoningBlock
  | [] => [⟨none, text⟩]
  | block :: blocks => { block with text := block.text ++ text } :: blocks

/-- **The block that an end closes**: the one started under its id or, if there
is none, the innermost one. -/
def closedBy (log : ReasoningLog) (id : String) : Option ReasoningBlock :=
  (log.opened.find? (fun block => block.id = some id)).or log.opened.head?

/-- The text and the signature of a block that is ended with one. -/
def sealBlock : Option ReasoningBlock → Option String → List (String × String)
  | some block, some signature => [(block.text, signature)]
  | _, _ => []

def step (log : ReasoningLog) : StreamPart → ReasoningLog
  | .other (.reasoningStart id _) => { log with opened := ⟨some id, ""⟩ :: log.opened }
  | .other (.reasoningDelta text _) => { log with opened := extend text log.opened }
  | .other (.reasoningEnd id signature _) =>
    { opened := (log.closedBy id).elim [] log.opened.erase
      sealed := log.sealed ++ sealBlock (log.closedBy id) signature }
  | _ => log

end ReasoningLog

/-- What the parts of a stream say of its reasoning. -/
def reasoningLog (parts : List StreamPart) : ReasoningLog := parts.foldl ReasoningLog.step {}

theorem reasoningLog_concat (parts : List StreamPart) (part : StreamPart) :
    reasoningLog (parts ++ [part]) = (reasoningLog parts).step part := by
  unfold reasoningLog
  rw [List.foldl_append]
  rfl

theorem reasoningTexts_concat (parts : List StreamPart) (part : StreamPart) :
    reasoningTexts (parts ++ [part]) = reasoningTexts parts ++ (reasoningText part).getD "" := by
  unfold reasoningTexts
  rw [List.filterMap_append, String.join_append]
  cases h : reasoningText part with
  | none => rw [List.filterMap_cons_none h]; rfl
  | some value => rw [List.filterMap_cons_some h, List.filterMap_nil]; simp

/-! ## Texts -/

/-- The text a part adds to the reply. -/
def visibleDelta : StreamPart → Option String
  | .textDelta text => some text
  | _ => none

/-- **The texts of a stream**, one for each delta. -/
def texts (parts : List StreamPart) : List String := parts.filterMap visibleDelta

end BitRouter.Gateway
