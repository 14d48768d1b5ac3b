import BitRouter.Trajectory.Canonical

/-!
# The digests of a growing prompt

The canonicalizer never serializes a prompt. It updates one HMAC with the
opening of the envelope, with each turn, and with the commas between them, and
closes a copy of it wherever a digest is wanted. That is right because a
serialized array is its items in order, a comma before every item but the
first: what the HMAC has read after `k` turns is the serialization of the
first `k` turns, short of its closing bracket (`Progress.Reads`).

`canonicalize_reads` says it of the whole pass: every digest is that of a
serialized prefix, and the byte count is the length of the serialized prompt.
-/

namespace BitRouter.Trajectory.Canonical

open BitRouter.Registry (Value)
open BitRouter.Registry.Value (renderItems renderFields renderString)

/-! ## A serialized array grows at its end -/

theorem bytes_ofList_append (xs ys : List Char) :
    bytes (String.ofList (xs ++ ys)) = bytes (String.ofList xs) ++ bytes (String.ofList ys) := by
  rw [String.ofList_append, bytes_append]

theorem renderItems_concat (items : List Value) (v : Value) :
    renderItems (items ++ [v])
      = renderItems items ++ (if items = [] then [] else [',']) ++ v.renderChars := by
  induction items with
  | nil => simp [renderItems]
  | cons w rest ih =>
    cases rest with
    | nil => simp [renderItems]
    | cons w' rest =>
      have happ : renderItems ((w :: w' :: rest) ++ [v])
          = w.renderChars ++ ',' :: renderItems ((w' :: rest) ++ [v]) := rfl
      have hcons : renderItems (w :: w' :: rest)
          = w.renderChars ++ ',' :: renderItems (w' :: rest) := rfl
      rw [happ, ih, hcons]
      simp

/-- The bytes of some turns as the items of an array. -/
def turnsVec (turns : List CanonicalTurn) : List ℕ :=
  bytes (String.ofList (renderItems (turns.map (·.toValue))))

theorem turnsVec_concat (turns : List CanonicalTurn) (turn : CanonicalTurn) :
    turnsVec (turns ++ [turn])
      = turnsVec turns ++ (if turns = [] then [] else bytes ",") ++ toVec turn.toValue := by
  unfold turnsVec
  rw [List.map_append, List.map_singleton, renderItems_concat, bytes_ofList_append,
    bytes_ofList_append]
  by_cases hnil : turns = []
  · rw [if_pos hnil, if_pos (List.map_eq_nil_iff.mpr hnil)]
    rfl
  · rw [if_neg hnil, if_neg (mt List.map_eq_nil_iff.mp hnil)]
    rfl

/-- What comes before the turns of a serialized prompt. -/
def opening (system : Option String) : List ℕ :=
  bytes (String.ofList (Char.ofNat 123 ::
    (renderString "version" ++ ':' :: (Value.number (toString canonicalPromptVersion)).renderChars
      ++ ',' :: (renderString "system" ++ ':' :: (optionValue system).renderChars
        ++ ',' :: (renderString "turns" ++ [':', '['])))))

/-- `S k`: the serialization of a prompt cut after some turns. -/
def prefixVec (system : Option String) (turns : List CanonicalTurn) : List ℕ :=
  toVec { version := canonicalPromptVersion, system, turns : CanonicalPrefix }.toValue

/-- **A serialized prompt is an opening, its turns and a suffix.** -/
theorem prefixVec_eq (system : Option String) (turns : List CanonicalTurn) :
    prefixVec system turns = opening system ++ turnsVec turns ++ canonicalSuffix := by
  unfold opening turnsVec
  rw [← bytes_ofList_append]
  show _ = _ ++ bytes (String.ofList [']', Char.ofNat 125])
  rw [← bytes_ofList_append]
  unfold prefixVec toVec Value.render CanonicalPrefix.toValue
  simp [Value.renderChars, renderFields]

/-! ## The pass over the turns -/

section Pass

variable {p : Primitives} {key : CorrelationKey} {system : Option String}

theorem Hmac.update_update (mac : Hmac) (xs ys : List ℕ) :
    (mac.update xs).update ys = mac.update (xs ++ ys) := by
  simp [update]

theorem Progress.absorb_eq_ok {s s' : Progress} {data : List ℕ} (h : s.absorb data = .ok s') :
    s' = { s with
      mac := s.mac.update data
      canonicalInputBytes := s.canonicalInputBytes + data.length } := by
  obtain ⟨count, hcount, hs⟩ := bind_eq_ok.mp h
  rw [pure_eq_ok] at hs
  rw [← hs, (checkedAdd_eq_ok.mp hcount).2]

/-- Where, among the first `m` turns of `total`, a digest is kept. -/
def keptEnds (total m : ℕ) : List ℕ :=
  (List.range' 1 m).filter fun k => k < total ∧ total - maxAncestorPrefixDigests ≤ k

theorem keptEnds_succ (total m : ℕ) :
    keptEnds total (m + 1) = keptEnds total m
      ++ if m + 1 < total ∧ total - maxAncestorPrefixDigests ≤ m + 1 then [m + 1] else [] := by
  unfold keptEnds
  rw [List.range'_1_concat, List.filter_append, Nat.add_comm 1 m]
  simp [List.filter_singleton]

/-- **The kept digests are the last ones**, short of the whole prompt. -/
theorem keptEnds_total (n : ℕ) :
    keptEnds n n = List.range' (max 1 (n - maxAncestorPrefixDigests))
      (n - max 1 (n - maxAncestorPrefixDigests)) := by
  rcases Nat.eq_zero_or_pos n with rfl | hpos
  · rfl
  · set start := max 1 (n - maxAncestorPrefixDigests) with hstart
    have hle : start ≤ n := max_le hpos (Nat.sub_le _ _)
    have hsplit : List.range' 1 n
        = List.range' 1 (start - 1) ++ (List.range' start (n - start) ++ [n]) := by
      have hone : 1 ≤ start := le_max_left _ _
      calc List.range' 1 n = List.range' 1 ((start - 1) + ((n - start) + 1)) :=
            congrArg (List.range' 1) (by omega)
        _ = List.range' 1 (start - 1) ++ List.range' start ((n - start) + 1) := by
            rw [← List.range'_append_1, Nat.add_sub_cancel' hone]
        _ = List.range' 1 (start - 1) ++ (List.range' start (n - start) ++ [n]) := by
            rw [List.range'_1_concat, Nat.add_sub_cancel' hle]
    unfold keptEnds
    rw [hsplit, List.filter_append, List.filter_append]
    have hbefore : (List.range' 1 (start - 1)).filter
        (fun k => k < n ∧ n - maxAncestorPrefixDigests ≤ k) = [] := by
      refine List.filter_eq_nil_iff.mpr fun k hk => ?_
      have hk := List.mem_range'_1.mp hk
      rw [decide_eq_true_eq]
      omega
    have hkept : (List.range' start (n - start)).filter
        (fun k => k < n ∧ n - maxAncestorPrefixDigests ≤ k) = List.range' start (n - start) := by
      refine List.filter_eq_self.mpr fun k hk => ?_
      have hk := List.mem_range'_1.mp hk
      rw [decide_eq_true_eq]
      omega
    rw [hbefore, hkept]
    simp

/-- What the pass knows after the turns `done` of `turns`. -/
structure Progress.Reads (p : Primitives) (key : CorrelationKey) (system : Option String)
    (turns done : List CanonicalTurn) (s : Progress) : Prop where
  mac : s.mac = (Hmac.newFromSlice key.secret).update (opening system ++ turnsVec done)
  count : s.canonicalInputBytes = (opening system ++ turnsVec done).length
  digests : (keptEnds turns.length done.length).mapM
      (fun k => digestBytes p key (prefixVec system (turns.take k)))
    = .ok s.ancestorPrefixDigests

theorem Progress.Reads.close {turns done : List CanonicalTurn} {s : Progress}
    (h : s.Reads p key system turns done) :
    finishDigest p key (s.mac.update canonicalSuffix)
      = digestBytes p key (prefixVec system done) := by
  rw [h.mac, Hmac.update_update, ← prefixVec_eq]
  rfl

/-- One turn, with the comma before it. -/
theorem Progress.Reads.step {turns done rest : List CanonicalTurn} {turn : CanonicalTurn}
    {s s' : Progress} (h : s.Reads p key system turns done)
    (hturns : turns = done ++ turn :: rest)
    (hstep : absorbTurn p key turns.length s (turn, done.length) = .ok s') :
    s'.Reads p key system turns (done ++ [turn]) := by
  obtain ⟨s₁, hcomma, hstep⟩ := bind_eq_ok.mp hstep
  obtain ⟨s₂, hturn, hstep⟩ := bind_eq_ok.mp hstep
  have hs₁ : s₁ = { s with
      mac := s.mac.update (if done = [] then [] else bytes ",")
      canonicalInputBytes := s.canonicalInputBytes
        + (if done = [] then [] else bytes ",").length } := by
    by_cases hnil : done = []
    · rw [absorbComma, if_neg (by simp [hnil])] at hcomma
      simp [hnil, Hmac.update, ← Except.ok.inj hcomma]
    · rw [absorbComma, if_pos (List.length_pos_iff.mpr hnil)] at hcomma
      rw [if_neg hnil, absorb_eq_ok hcomma]
  have hs₂ := absorb_eq_ok hturn
  rw [hs₁] at hs₂
  -- the whole of the turn is read, whether or not a digest is kept
  have hmac : s₂.mac
      = (Hmac.newFromSlice key.secret).update (opening system ++ turnsVec (done ++ [turn])) := by
    rw [hs₂, turnsVec_concat]
    simp only [h.mac, Hmac.update_update, List.append_assoc]
  have hcount : s₂.canonicalInputBytes
      = (opening system ++ turnsVec (done ++ [turn])).length := by
    rw [hs₂, turnsVec_concat]
    simp only [h.count, List.length_append, Nat.add_assoc]
  have hdigests : s₂.ancestorPrefixDigests = s.ancestorPrefixDigests := by rw [hs₂]
  have hlength : (done ++ [turn]).length = done.length + 1 := by simp
  have htake : turns.take (done.length + 1) = done ++ [turn] := by
    rw [hturns, List.append_cons, ← hlength, List.take_left]
  have hclose : finishDigest p key (s₂.mac.update canonicalSuffix)
      = digestBytes p key (prefixVec system (done ++ [turn])) := by
    rw [hmac, Hmac.update_update, ← prefixVec_eq]
    rfl
  split at hstep
  · rename_i hkept
    obtain ⟨digest, hdigest, hs'⟩ := bind_eq_ok.mp hstep
    rw [pure_eq_ok] at hs'
    subst hs'
    refine ⟨hmac, hcount, ?_⟩
    rw [hlength, keptEnds_succ, if_pos hkept, List.mapM_append, h.digests]
    rw [hclose, ← htake] at hdigest
    simp [hdigest, hdigests, bind, Except.bind, pure, Except.pure]
  · rename_i hkept
    rw [pure_eq_ok] at hstep
    subst hstep
    refine ⟨hmac, hcount, ?_⟩
    rw [hlength, keptEnds_succ, if_neg hkept, List.append_nil, h.digests, hdigests]

/-- **The whole pass**: by induction on the turns still to come. -/
theorem Progress.Reads.run {turns done rest : List CanonicalTurn} {s s' : Progress}
    (h : s.Reads p key system turns done) (hturns : turns = done ++ rest)
    (hrun : (rest.zipIdx done.length).foldlM (absorbTurn p key turns.length) s = .ok s') :
    s'.Reads p key system turns turns := by
  induction rest generalizing done s with
  | nil =>
    rw [List.append_nil] at hturns
    rw [List.zipIdx_nil, List.foldlM_nil, pure_eq_ok] at hrun
    exact hrun ▸ hturns ▸ h
  | cons turn rest ih =>
    obtain ⟨s₁, hstep, hrun⟩ := bind_eq_ok.mp hrun
    have hstep := h.step hturns hstep
    refine ih hstep (by rw [hturns, List.append_cons]) ?_
    rw [List.length_append, List.length_singleton]
    exact hrun

/-- The serialization of a prompt cut after `k` turns. -/
def serialized (p : Primitives) (prompt : Prompt) (k : ℕ) : List ℕ :=
  prefixVec prompt.system ((canonicalTurns p.fromStr prompt).take k)

/-- What the digests of a prompt are, given the number `n` of its turns. -/
structure CanonicalPromptDigests.Of (p : Primitives) (key : CorrelationKey) (prompt : Prompt)
    (n : ℕ) (digests : CanonicalPromptDigests) : Prop where
  full : digestBytes p key (serialized p prompt n) = .ok digests.fullInputDigest
  count : digests.canonicalInputBytes = (serialized p prompt n).length
  ancestors : (List.range' (max 1 (n - maxAncestorPrefixDigests))
      (n - max 1 (n - maxAncestorPrefixDigests))).mapM
      (fun k => digestBytes p key (serialized p prompt k)) = .ok digests.ancestorPrefixDigests
  truncated : digests.ancestorPrefixesTruncated = true ↔ maxAncestorPrefixDigests < n - 1

theorem opening_eq (system : Option String) :
    (prefixVec system []).take ((prefixVec system []).length - canonicalSuffix.length)
      = opening system := by
  have hnil : turnsVec [] = [] := rfl
  rw [prefixVec_eq, hnil, List.append_nil, List.length_append, Nat.add_sub_cancel,
    List.take_left]

/-- **One pass digests every prefix.** -/
theorem canonicalize_reads {prompt : Prompt} {digests : CanonicalPromptDigests}
    (h : canonicalize p key prompt = .ok digests) :
    digests.Of p key prompt (canonicalTurns p.fromStr prompt).length := by
  obtain ⟨-, -, h⟩ := bind_eq_ok.mp h
  obtain ⟨s, hrun, h⟩ := bind_eq_ok.mp h
  obtain ⟨closed, hclosed, h⟩ := bind_eq_ok.mp h
  obtain ⟨digest, hdigest, h⟩ := bind_eq_ok.mp h
  rw [pure_eq_ok] at h
  subst h
  set turns := canonicalTurns p.fromStr prompt with hturns
  have hstart : Progress.Reads p key prompt.system turns []
      { mac := (Hmac.newFromSlice key.secret).update (opening prompt.system)
        canonicalInputBytes := (opening prompt.system).length
        ancestorPrefixDigests := [] } := by
    have hnil : turnsVec [] = [] := rfl
    exact ⟨by rw [hnil, List.append_nil], by rw [hnil, List.append_nil], rfl⟩
  have hreads : s.Reads p key prompt.system turns turns := by
    refine hstart.run (List.nil_append turns).symm ?_
    rw [← opening_eq]
    exact hrun
  have hclosed := Progress.absorb_eq_ok hclosed
  have hwhole : serialized p prompt turns.length = prefixVec prompt.system turns := by
    rw [serialized, ← hturns, List.take_length]
  constructor
  · rw [hwhole, ← hreads.close, ← hdigest, hclosed]
  · rw [hwhole, prefixVec_eq, hclosed, List.length_append, ← hreads.count]
  · rw [← keptEnds_total, hclosed]
    exact hreads.digests
  · exact decide_eq_true_iff

/-- A digest is kept for every proper prefix among the last ones. -/
theorem CanonicalPromptDigests.Of.kept {prompt : Prompt} {n k : ℕ}
    {digests : CanonicalPromptDigests} (h : digests.Of p key prompt n) (hpos : 1 ≤ k)
    (hlt : k < n) (hwindow : n - maxAncestorPrefixDigests ≤ k) {digest : KeyedDigest}
    (hdigest : digestBytes p key (serialized p prompt k) = .ok digest) :
    digest ∈ digests.ancestorPrefixDigests := by
  have hmem : k ∈ List.range' (max 1 (n - maxAncestorPrefixDigests))
      (n - max 1 (n - maxAncestorPrefixDigests)) := by
    rw [List.mem_range'_1]
    omega
  exact mem_of_mapM_ok h.ancestors hmem hdigest

end Pass

end BitRouter.Trajectory.Canonical
