import BitRouter.Trajectory.Prefixes

/-!
# A continued conversation finds its parent

Turns are built from the left, and a new turn looks only at the last one
before it. The turns of a prompt are therefore the first turns of every
prompt that continues it, unless the first new turn joins the last old one:
both are tool calls, or both tool results (`canonicalTurns_append`).

The digest of a prompt is then one of the digests kept for its continuation,
as far back as the window reaches. A prompt without a turn is the exception:
the empty prefix is no ancestor, and no digest of it is kept.
-/

namespace BitRouter.Trajectory.Canonical

open BitRouter.Ai (Role)
open BitRouter.Registry (Value)

/-! ## Merging turns -/

theorem protocolArtifactKind_extend {turn : CanonicalTurn} {content : List CanonicalContent}
    {role : Role} (h : protocolArtifactKind turn = protocolArtifactKind { role, content }) :
    protocolArtifactKind { turn with content := turn.content ++ content }
      = protocolArtifactKind turn := by
  unfold protocolArtifactKind at h ⊢
  simp only [List.all_append, Bool.and_eq_true] at h ⊢
  by_cases hcall : turn.content.all (·.isToolCall) = true
  · rw [if_pos hcall] at h ⊢
    by_cases hcall' : content.all (·.isToolCall) = true
    · rw [if_pos ⟨hcall, hcall'⟩]
    · rw [if_neg hcall'] at h
      split at h <;> cases h
  · rw [if_neg hcall] at h ⊢
    rw [if_neg (fun hboth => hcall hboth.1)]
    by_cases hresult : turn.content.all (·.isToolResult) = true
    · rw [if_pos hresult] at h ⊢
      by_cases hcall' : content.all (·.isToolCall) = true
      · rw [if_pos hcall'] at h
        cases h
      · rw [if_neg hcall'] at h
        split at h
        · rename_i hresult'
          rw [if_pos ⟨hresult, hresult'⟩]
        · cases h
    · rw [if_neg hresult, if_neg (fun hboth => hresult hboth.1)]

/-- Whether a turn joins the last one of some turns. -/
def Joins (turns : List CanonicalTurn) (turn : CanonicalTurn) : Prop :=
  turns.getLast?.bind protocolArtifactKind = protocolArtifactKind turn
    ∧ (protocolArtifactKind turn).isSome

theorem pushTurn_of_not_joins {turns : List CanonicalTurn} {turn : CanonicalTurn}
    (h : ¬ Joins turns turn) : pushTurn turns turn = turns ++ [turn] := if_neg h

theorem pushTurn_of_joins {turns : List CanonicalTurn} {last turn : CanonicalTurn}
    (hlast : turns.getLast? = some last) (h : Joins turns turn) :
    pushTurn turns turn = extendLast turns last turn.content := by
  refine (if_pos h).trans ?_
  rw [hlast]

theorem joins_getLast? {turns turns' : List CanonicalTurn} {turn : CanonicalTurn}
    (h : turns.getLast? = turns'.getLast?) : Joins turns turn ↔ Joins turns' turn := by
  unfold Joins
  rw [h]

/-- A new turn leaves everything but the last turn alone. -/
theorem pushTurn_append (front : List CanonicalTurn) {turns : List CanonicalTurn}
    (hne : turns ≠ []) (turn : CanonicalTurn) :
    pushTurn (front ++ turns) turn = front ++ pushTurn turns turn := by
  have hlast : (front ++ turns).getLast? = turns.getLast? := by
    rw [List.getLast?_append, List.getLast?_eq_getLast_of_ne_nil hne]
    rfl
  by_cases hjoin : Joins turns turn
  · have hturns := List.getLast?_eq_getLast_of_ne_nil hne
    rw [pushTurn_of_joins hturns hjoin,
      pushTurn_of_joins (hlast.trans hturns) ((joins_getLast? hlast).mpr hjoin)]
    unfold extendLast
    rw [List.dropLast_append_of_ne_nil hne, List.append_assoc]
  · rw [pushTurn_of_not_joins hjoin, pushTurn_of_not_joins (mt (joins_getLast? hlast).mp hjoin),
      List.append_assoc]

theorem pushTurn_ne_nil (turns : List CanonicalTurn) (turn : CanonicalTurn) :
    pushTurn turns turn ≠ [] := by
  unfold pushTurn
  dsimp only
  split
  · split <;> simp [extendLast]
  · simp

theorem foldl_pushTurn_append (front : List CanonicalTurn) {turns : List CanonicalTurn}
    (hne : turns ≠ []) (more : List CanonicalTurn) :
    more.foldl pushTurn (front ++ turns) = front ++ more.foldl pushTurn turns := by
  induction more generalizing turns with
  | nil => rfl
  | cons turn more ih =>
    rw [List.foldl_cons, List.foldl_cons, pushTurn_append front hne,
      ih (pushTurn_ne_nil turns turn)]

theorem kind_head?_foldl (first : CanonicalTurn) (rest more : List CanonicalTurn) :
    ((more.foldl pushTurn (first :: rest)).head?.bind protocolArtifactKind)
      = protocolArtifactKind first := by
  induction more generalizing first rest with
  | nil => rfl
  | cons turn more ih =>
    rw [List.foldl_cons]
    cases rest with
    | cons second rest =>
      have hkeep := pushTurn_append [first] (List.cons_ne_nil second rest) turn
      rw [List.singleton_append, List.singleton_append] at hkeep
      rw [hkeep]
      exact ih first _
    | nil =>
      by_cases hjoin : Joins [first] turn
      · rw [pushTurn_of_joins rfl hjoin]
        exact (ih _ []).trans (protocolArtifactKind_extend hjoin.1)
      · rw [pushTurn_of_not_joins hjoin]
        exact ih first [turn]

/-! ## Turns of a continued prompt -/

section Turns

variable {fromStr : String → Option Value}

theorem canonicalTurns_eq (prompt : Prompt) :
    canonicalTurns fromStr prompt
      = (prompt.messages.flatMap (messageTurns fromStr)).foldl pushTurn [] :=
  List.foldl_flatMap.symm

/-- Whether the first turn of `new` would join the last turn of `turns`. -/
def SameArtifact (turns new : List CanonicalTurn) : Prop :=
  ∃ last ∈ turns.getLast?, ∃ first ∈ new.head?,
    protocolArtifactKind last = protocolArtifactKind first ∧ (protocolArtifactKind first).isSome

instance decidableSameArtifact (turns new : List CanonicalTurn) :
    Decidable (SameArtifact turns new) :=
  inferInstanceAs (Decidable (∃ last ∈ turns.getLast?, ∃ first ∈ new.head?, _ ∧ _))

/-- **Turns stand, and new turns follow them.** -/
theorem canonicalTurns_append {prompt prompt' : Prompt} {added : List Message}
    (hmessages : prompt'.messages = prompt.messages ++ added)
    (hsame : ¬ SameArtifact (canonicalTurns fromStr prompt)
      (canonicalTurns fromStr { prompt with messages := added })) :
    canonicalTurns fromStr prompt'
      = canonicalTurns fromStr prompt
        ++ canonicalTurns fromStr { prompt with messages := added } := by
  rw [canonicalTurns_eq { prompt with messages := added }] at hsame ⊢
  rw [canonicalTurns_eq prompt', hmessages, List.flatMap_append, List.foldl_append,
    ← canonicalTurns_eq prompt]
  generalize canonicalTurns fromStr prompt = turns at hsame ⊢
  show _ = turns ++ (added.flatMap (messageTurns fromStr)).foldl pushTurn []
  generalize added.flatMap (messageTurns fromStr) = new at hsame ⊢
  cases new with
  | nil => exact (List.append_nil turns).symm
  | cons first more =>
    have halone : pushTurn [] first = [first] := by
      refine pushTurn_of_not_joins fun hjoin => ?_
      have hnone : none = protocolArtifactKind first := hjoin.1
      have hsome := hjoin.2
      rw [← hnone] at hsome
      exact absurd hsome Bool.false_ne_true
    have hnew : (first :: more).foldl pushTurn [] = more.foldl pushTurn [first] := by
      rw [List.foldl_cons, halone]
    rw [hnew] at hsame ⊢
    have hjoin : ¬ Joins turns first := by
      intro hjoin
      -- the first turn of the result is `first`, with what joined it
      have hkind := kind_head?_foldl first [] more
      obtain ⟨kind, hkind'⟩ := Option.isSome_iff_exists.mp hjoin.2
      rw [hkind'] at hkind
      obtain ⟨head, hhead, hheadKind⟩ := Option.bind_eq_some_iff.mp hkind
      obtain ⟨last, hlast, hlastKind⟩ := Option.bind_eq_some_iff.mp (hjoin.1.trans hkind')
      exact hsame ⟨last, hlast, head, hhead, hlastKind.trans hheadKind.symm, by simp [hheadKind]⟩
    rw [List.foldl_cons, pushTurn_of_not_joins hjoin]
    exact foldl_pushTurn_append turns (List.cons_ne_nil first []) more

end Turns

/-! ## The parent of a request -/

section Parent

variable {p : Primitives} {key : CorrelationKey}

/-- **The digests of a prompt, and where its continuations find them.** Every
digest is that of the serialization of a prefix, and the digest of a prompt
that has a turn is kept for every prompt that continues it by at most a window
of turns, none of which joins its last one. -/
theorem canonicalize_correlates {prompt : Prompt} {digests : CanonicalPromptDigests}
    (h : canonicalize p key prompt = .ok digests) :
    digests.Of p key prompt (canonicalTurns p.fromStr prompt).length
      ∧ (canonicalTurns p.fromStr prompt ≠ [] →
        ∀ (prompt' : Prompt) (added : List Message) (digests' : CanonicalPromptDigests),
          prompt'.system = prompt.system → prompt'.messages = prompt.messages ++ added →
          canonicalize p key prompt' = .ok digests' →
          ¬ SameArtifact (canonicalTurns p.fromStr prompt)
            (canonicalTurns p.fromStr { prompt with messages := added }) →
          1 ≤ (canonicalTurns p.fromStr { prompt with messages := added }).length →
          (canonicalTurns p.fromStr { prompt with messages := added }).length
            ≤ maxAncestorPrefixDigests →
          digests.fullInputDigest ∈ digests'.ancestorPrefixDigests) := by
  have hreads := canonicalize_reads h
  refine ⟨hreads, ?_⟩
  intro hne prompt' added digests' hsystem hmessages h' hsame hone hwindow
  have hreads' := canonicalize_reads h'
  have hturns := canonicalTurns_append hmessages hsame
  set turns := canonicalTurns p.fromStr prompt with hdef
  set new := canonicalTurns p.fromStr { prompt with messages := added }
  have hlength : (canonicalTurns p.fromStr prompt').length = turns.length + new.length := by
    rw [hturns, List.length_append]
  have hserialized : serialized p prompt' turns.length = serialized p prompt turns.length := by
    unfold serialized
    rw [hsystem, hturns, List.take_left, ← hdef, List.take_length]
  refine hreads'.kept (List.length_pos_iff.mpr hne) (by omega) (by omega) ?_
  rw [hserialized]
  exact hreads.full

end Parent

/-! ## A conversation -/

namespace Sample

/-- The 32 bytes of a number. -/
def digest (n : ℕ) : List ℕ := (List.range 32).map fun i => n / 256 ^ (31 - i) % 256

/-- A user message and the answer to it. -/
def messages : List Message :=
  [{ role := .user, content := [.text "Plan it."] },
    { role := .assistant, content := [.text "First draft."] }]

def prompt (k : ℕ) : Prompt := { system := none, messages := messages.take k }

def turn (role text : String) : String :=
  "\x7b\"role\":\"" ++ role ++ "\",\"content\":[\x7b\"kind\":\"text\",\"text\":\""
    ++ text ++ "\"\x7d]\x7d"

/-- The prompts as the serializer writes them. -/
def text (turns : List String) : List ℕ :=
  bytes ("\x7b\"version\":1,\"system\":null,\"turns\":[" ++ ",".intercalate turns ++ "]\x7d")

def key : CorrelationKey := { keyId := "key-09f2764e22a7eef0", secret := List.replicate 32 1 }

/-- HMAC-SHA256 under that key, of the texts above; no text is a JSON value. -/
def primitives : Primitives where
  hmacSha256 _ input :=
    digest <|
      if input = text [] then
        0x7fb17be0a1feedeec228bb2e29be7248ff1a145b848592bd11710b8b706df2a4
      else if input = text [turn "user" "Plan it."] then
        0x37b60c6620f2a7ce026049d541b07724ceeeac3363d004390b3af7be2b8cfd50
      else 0xb26c9c0b9c1968c9e8518916f1810b6bff7c9ef3d759a9db42aceb2fcff3b895
  fromStr _ := none

end Sample

open Sample in
/-- A request that holds the answer finds the one that was answered. -/
theorem canonicalize_correlates_answered :
    ∃ digests digests', canonicalize primitives key (prompt 1) = .ok digests
      ∧ canonicalize primitives key (prompt 2) = .ok digests'
      ∧ digests.fullInputDigest ∈ digests'.ancestorPrefixDigests := by
  have hfirst : (canonicalize primitives key (prompt 1)).isOk = true := by decide +kernel
  have hlater : (canonicalize primitives key (prompt 2)).isOk = true := by decide +kernel
  obtain ⟨digests, h⟩ := exists_ok_of_isOk hfirst
  obtain ⟨digests', h'⟩ := exists_ok_of_isOk hlater
  refine ⟨digests, digests', h, h', ?_⟩
  exact (canonicalize_correlates h).2 (by decide +kernel) (prompt 2) (messages.drop 1) digests'
    rfl rfl h' (by decide +kernel) (by decide +kernel) (by decide +kernel)

open Sample in
/-- A prompt without a turn is not found. -/
theorem canonicalize_keeps_no_empty_prompt :
    ∃ digests digests', canonicalize primitives key (prompt 0) = .ok digests
      ∧ canonicalize primitives key (prompt 1) = .ok digests'
      ∧ (prompt 1).messages = (prompt 0).messages ++ messages.take 1
      ∧ ¬ SameArtifact (canonicalTurns primitives.fromStr (prompt 0))
        (canonicalTurns primitives.fromStr { prompt 0 with messages := messages.take 1 })
      ∧ (canonicalTurns primitives.fromStr
        { prompt 0 with messages := messages.take 1 }).length = 1
      ∧ digests.fullInputDigest ∉ digests'.ancestorPrefixDigests := by
  have hempty : (canonicalize primitives key (prompt 0)).isOk = true := by decide +kernel
  have hnone : (canonicalize primitives key (prompt 1)).toOption.any
      (fun digests' => digests'.ancestorPrefixDigests.isEmpty) = true := by decide +kernel
  obtain ⟨digests, h⟩ := exists_ok_of_isOk hempty
  obtain ⟨digests', h', hnone⟩ := exists_ok_of_any hnone
  refine ⟨digests, digests', h, h', rfl, by decide +kernel, by decide +kernel, ?_⟩
  rw [List.isEmpty_iff.mp hnone]
  exact List.not_mem_nil

end BitRouter.Trajectory.Canonical
