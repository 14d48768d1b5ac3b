import BitRouter.Gateway.StreamedCalls

/-!
# Calls told in blocks

A wire that has one open block at a time tells a call in a block of its own,
and puts the fragments that follow into the block that is open
(`CallTrack.advance`). What is told so are the calls of the stream exactly as
long as every fragment arrives while the block of its call is the open one
(`Tracked.step`, `Tracked.carries`).
-/

namespace BitRouter.Gateway

open Ai

/-- The calls whose blocks are closed, and the call of the open block. -/
structure CallTrack where
  done : List StreamedCall := []
  running : Option StreamedCall := none

namespace CallTrack

def all (t : CallTrack) : List StreamedCall := t.done ++ t.running.toList

/-- Close the open block. -/
def settle (t : CallTrack) : CallTrack := { done := t.all }

/-- A delta of a call. A fragment goes to the open block, whatever its id. -/
def delta (t : CallTrack) (id : String) (name : Option String) (arguments : String) : CallTrack :=
  match name with
  | some name => { t.settle with running := some { id, name, arguments } }
  | none => { t with running := t.running.map fun call =>
      { call with arguments := call.arguments ++ arguments } }

/-- **What a part does to the calls.** -/
def advance (closes : StreamPart → Bool) (t : CallTrack) (part : StreamPart) : CallTrack :=
  match part with
  | .toolCallDelta id name arguments _ => t.delta id (givenName name) arguments
  | part => if closes part then t.settle else t

@[simp] theorem all_settle (t : CallTrack) : t.settle.all = t.all := List.append_nil _

theorem delta_empty (t : CallTrack) (id : String) : t.delta id none "" = t := by
  unfold delta
  cases hrunning : t.running with
  | none =>
    show CallTrack.mk t.done none = t
    rw [← hrunning]
  | some call =>
    show CallTrack.mk t.done (some (StreamedCall.mk call.id call.name (call.arguments ++ ""))) = t
    rw [String.append_empty]
    show CallTrack.mk t.done (some call) = t
    rw [← hrunning]

theorem settle_of_none {t : CallTrack} (h : t.running = none) : t.settle = t := by
  obtain ⟨done, running⟩ := t
  obtain rfl : running = none := h
  show CallTrack.mk (done ++ []) none = _
  rw [List.append_nil]

end CallTrack

/-- Whether a part introduces a call. -/
def Names (id : String) (part : StreamPart) : Prop := (introduces part).map Prod.fst = some id

instance decidableNames (id : String) : DecidablePred (Names id) := fun part =>
  inferInstanceAs (Decidable ((introduces part).map Prod.fst = some id))

/-- **A fragment has to arrive while the block of its call is open**: since the
call was introduced, no part closed a block. -/
def CarriesCall (closes : StreamPart → Bool) (pre : List StreamPart) : StreamPart → Prop
  | .toolCallDelta id name arguments _ =>
    givenName name = none → arguments ≠ "" → Since (Names id) (closes · = true) pre
  | _ => True

instance decidableCarriesCall (closes : StreamPart → Bool) (pre : List StreamPart)
    (part : StreamPart) : Decidable (CarriesCall closes pre part) :=
  match part with
  | .toolCallDelta id name arguments _ => inferInstanceAs (Decidable
      (givenName name = none → arguments ≠ "" → Since (Names id) (closes · = true) pre))
  | .textDelta _ | .serverToolCall _ _ _ _ _ | .serverToolResult _ _ _ _ | .usage _ | .finish _
  | .responseCompleted _ _ | .other _ => inferInstanceAs (Decidable True)

instance decidableIntroduced (parts : List StreamPart) : Decidable (Introduced parts) :=
  @decidableAlong _ _ _ fun pre part =>
    match part with
    | .toolCallDelta id name arguments metadata => inferInstanceAs (Decidable
        (if (introduces (.toolCallDelta id name arguments metadata)).isSome then
          ∀ y ∈ pre, fragment id y = none
        else id ∈ (introductions pre).map Prod.fst))
    | .textDelta _ | .serverToolCall _ _ _ _ _ | .serverToolResult _ _ _ _ | .usage _ | .finish _
    | .responseCompleted _ _ | .other _ => inferInstanceAs (Decidable True)

/-- **The calls of a stream are told.** -/
structure Tracked (closes : StreamPart → Bool) (parts : List StreamPart) (t : CallTrack) :
    Prop where
  calls : t.all = calls parts
  running : ∀ id, t.running.map (·.id) = some id ↔ Since (Names id) (closes · = true) parts

variable {id : String} {metadata : ProviderMetadata} {name : Option String}

namespace Tracked

variable {closes : StreamPart → Bool} {parts post : List StreamPart} {part : StreamPart}
  {t : CallTrack}

theorem initial : Tracked closes [] {} :=
  ⟨rfl, fun _ => ⟨fun h => absurd h (by simp), fun h => absurd h not_since_nil⟩⟩

theorem map_fragment {done : List StreamedCall} {call : StreamedCall}
    (hnodup : ((done ++ [call]).map (·.id)).Nodup) {arguments : String} :
    (done ++ [call]).map (fun c => { c with arguments := c.arguments
      ++ (fragment c.id (.toolCallDelta call.id name arguments metadata)).getD "" })
      = done ++ [{ call with arguments := call.arguments ++ arguments }] := by
  rw [List.map_append] at hnodup ⊢
  obtain ⟨-, -, hne⟩ := List.nodup_append.mp hnodup
  congr 1
  · refine (List.map_congr_left fun c hc => ?_).trans (List.map_id _)
    have hid : call.id ≠ c.id :=
      fun heq => hne c.id (List.mem_map_of_mem hc) call.id (by simp) heq.symm
    show StreamedCall.mk c.id c.name (c.arguments ++ (ite _ _ _ : Option String).getD "") = c
    rw [if_neg hid]
    show StreamedCall.mk c.id c.name (c.arguments ++ "") = c
    rw [String.append_empty]
  · show [StreamedCall.mk call.id call.name (call.arguments ++ (ite _ _ _ : Option String).getD "")]
      = _
    rw [if_pos rfl]
    rfl

/-- An empty fragment changes no call. -/
theorem map_fragment_empty (cs : List StreamedCall) :
    cs.map (fun c => { c with arguments := c.arguments
      ++ (fragment c.id (.toolCallDelta id name "" metadata)).getD "" }) = cs := by
  refine (List.map_congr_left fun c _ => ?_).trans (List.map_id _)
  have hfragment : (if id = c.id then some "" else none).getD "" = "" := by split <;> rfl
  show StreamedCall.mk c.id c.name (c.arguments ++ (ite _ _ _ : Option String).getD "") = c
  rw [hfragment, String.append_empty]

theorem introduces_of_not_named {arguments : String} (hname : givenName name = none) :
    introduces (.toolCallDelta id name arguments metadata) = none := by
  show (givenName name).map _ = none
  rw [hname]
  rfl

section

variable (h : Tracked closes parts t)

include h

theorem exists_running (hsince : Since (Names id) (closes · = true) parts) :
    ∃ call, t.running = some call ∧ call.id = id :=
  Option.map_eq_some_iff.mp ((h.running id).mpr hsince)

/-- **What a part says of the calls** is told. -/
theorem calls_advance (hcalls : Introduced (parts ++ [part]))
    (hcarries : CarriesCall closes parts part) :
    (t.advance closes part).all = Gateway.calls (parts ++ [part]) := by
  cases part with
  | toolCallDelta id name arguments metadata =>
    show (t.delta id (givenName name) arguments).all = _
    cases hname : givenName name with
    | some name =>
      rw [hcalls.calls_named hname, ← h.calls]
      rfl
    | none =>
      rw [calls_concat (introduces_of_not_named hname), ← h.calls]
      by_cases hempty : arguments = ""
      · obtain rfl := hempty
        rw [map_fragment_empty, CallTrack.delta_empty]
      · obtain ⟨call, hrunning, rfl⟩ := h.exists_running (hcarries hname hempty)
        have hall : t.all = t.done ++ [call] := by
          unfold CallTrack.all
          rw [hrunning]
          rfl
        have hnodup := hcalls.of_concat.nodup
        rw [← h.calls, hall] at hnodup
        rw [hall, map_fragment hnodup]
        show t.done ++ (t.running.map _).toList = _
        rw [hrunning]
        rfl
  | _ =>
    rw [calls_concat_of_none fun _ => rfl, ← h.calls]
    unfold CallTrack.advance
    dsimp only
    split
    · exact t.all_settle
    · rfl

/-- **One more part.** -/
theorem step (hcalls : Introduced (parts ++ [part]))
    (hcloses : ∀ id name arguments metadata,
      closes (.toolCallDelta id name arguments metadata) = (givenName name).isSome)
    (hcarries : CarriesCall closes parts part) : Tracked closes (parts ++ [part])
      (t.advance closes part) := by
  refine ⟨h.calls_advance hcalls hcarries, fun id => ?_⟩
  rw [since_concat, ← h.running id]
  cases part with
  | toolCallDelta other name arguments metadata =>
    show (t.delta other (givenName name) arguments).running.map (·.id) = some id
      ↔ ((givenName name).map fun name => (other, name)).map Prod.fst = some id ∨ _
    rw [hcloses]
    cases givenName name with
    | some name => exact ⟨Or.inl, fun h => h.resolve_right fun h => h.1 rfl⟩
    | none =>
      have hid : (t.delta other none arguments).running.map (·.id) = t.running.map (·.id) := by
        unfold CallTrack.delta
        rw [Option.map_map]
        rfl
      rw [hid]
      exact ⟨fun h => Or.inr ⟨Bool.false_ne_true, h⟩, fun h => (h.resolve_left (by simp)).2⟩
  | _ =>
    unfold CallTrack.advance
    dsimp only
    split
    · rename_i hclosed
      exact ⟨fun h => absurd h (by simp [CallTrack.settle]), fun h => by
        rcases h with h | h
        · exact absurd h (by simp [Names, introduces])
        · exact absurd hclosed h.1⟩
    · rename_i hopen
      exact ⟨fun h => Or.inr ⟨hopen, h⟩, fun h => (h.resolve_left (by simp [Names, introduces])).2⟩

/-- **A fragment that was misplaced is missed** at the end. -/
theorem carries (hcalls : Introduced (parts ++ [part]))
    (hfinal : ∀ call ∈ t.done, call.arguments = argumentsOf call.id (parts ++ part :: post)) :
    CarriesCall closes parts part := by
  cases part with
  | toolCallDelta id name arguments metadata =>
    intro hname harguments
    by_contra hclosed
    have hlast := (along_concat.mp hcalls).2
    dsimp only at hlast
    rw [introduces_of_not_named hname, if_neg (by simp), ← map_id_calls, ← h.calls] at hlast
    obtain ⟨call, hcall, rfl⟩ := List.mem_map.mp hlast
    -- The block of the call is closed, and has no later fragment.
    have hdone : call ∈ t.done := by
      refine (List.mem_append.mp hcall).resolve_right fun hrunning => hclosed ?_
      rw [← h.running, Option.mem_toList.mp hrunning]
      rfl
    have htold : call.arguments = argumentsOf call.id parts := by
      rw [h.calls] at hcall
      exact arguments_of_mem_calls hcall
    have hall := hfinal call hdone
    rw [argumentsOf_append, ← htold, ← List.singleton_append, argumentsOf_append,
      argumentsOf_singleton] at hall
    have hempty := String.append_eq_left_iff.mp hall.symm
    refine harguments ((String.append_eq_empty_iff.mp hempty).1 ▸ ?_)
    show arguments = (ite _ _ _ : Option String).getD ""
    rw [if_pos rfl]
    rfl
  | _ => exact trivial

end

end Tracked

/-! ## Two replies -/

/-- A reply with a signed block of reasoning, a text and two calls, one after
the other. -/
def sequentialReply : List StreamPart :=
  [.other (.reasoningStart "0" none), .other (.reasoningDelta "Two " none),
    .other (.reasoningDelta "calls." none), .other (.reasoningEnd "0" (some "sig") none),
    .other (.textStart "1"), .textDelta "Let me ", .textDelta "look.", .other (.textEnd "1"),
    .toolCallDelta "call_1" (some "weather") "" [], .toolCallDelta "call_1" none "[1" [],
    .toolCallDelta "call_1" (some "") "]" [], .toolCallDelta "call_2" (some "time") "[" [],
    .usage {}, .toolCallDelta "call_2" none "2]" [], .finish .toolCalls]

/-- The same two calls, with their fragments in turns. -/
def parallelReply : List StreamPart :=
  [.toolCallDelta "call_1" (some "weather") "" [], .toolCallDelta "call_2" (some "time") "" [],
    .toolCallDelta "call_1" none "[1]" [], .toolCallDelta "call_2" none "[2]" [],
    .finish .toolCalls]

end BitRouter.Gateway
