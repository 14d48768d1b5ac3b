import BitRouter.Gateway.CausalHistory
import BitRouter.Gateway.Faithful
import BitRouter.Gateway.StreamedTurn

/-!
# Streamed and collected turns

The accumulator of a streamed turn and the collector of a stream each group the
deltas by rules of their own. The accumulator goes on with its running field or
begins another one; the collector adds a delta to the block that is open, or to
the last one. The two groupings are one where no delta that begins a field is
added to a block that is already there, and where the deltas of a reasoning
block arrive in the order in which the collector puts them together
(`Grouped`).

`streamedCommitment_faithful_iff` says that this is when a streamed commitment
is the commitment of what was collected.
-/

namespace BitRouter.Gateway

open Ai

/-! ## Groupings -/

def StreamingFieldKind.block : StreamingFieldKind → Kind
  | text => .text
  | reasoning => .reasoning

/-- The block of a kind that is open. -/
def Outline.opened (o : Outline) : StreamingFieldKind → Option (String × ℕ)
  | .text => o.text
  | .reasoning => o.reasoning

/-- The kind of field a delta belongs to. -/
def fieldKind : StreamPart → Option StreamingFieldKind
  | .textDelta _ => some .text
  | .other (.reasoningDelta _ _) => some .reasoning
  | _ => none

def Outline.target (o : Outline) (kind : StreamingFieldKind) : ℕ :=
  address o.blocks kind.block (o.opened kind)

/-- **A delta that begins a field is added to a block that is there.** -/
def reopens (t : Transcript) (o : Outline) (part : StreamPart) : Bool :=
  (fieldKind part).any fun kind =>
    t.active.map Prod.fst ≠ some kind && o.target kind < o.blocks.length

def arrivedReasoning (o : Outline) (i : ℕ) : String := lane o.deltas i [.summary, .late, .text]

/-- **No delta reopens a block.** -/
def Fresh (parts : List StreamPart) : Prop :=
  Along (fun pre part => reopens (transcript pre) (outline pre) part = false) parts

/-- **Both groupings are one.** -/
structure Grouped (parts : List StreamPart) : Prop where
  /-- A delta that begins a field is added to a new block. -/
  fresh : Fresh parts
  /-- A reasoning block arrives in the order it is put together in: the summary,
  what came after its end first, and the rest. -/
  ordered : ∀ i, arrivedReasoning (outline parts) i
    = lateSummary parts i ++ earlySummary parts i ++ reasoningOf parts i

/-! ## Transcripts and outlines -/

section Shapes

variable {t : Transcript} {kind : StreamingFieldKind} {value current : String}

theorem all_finishActive (t : Transcript) : t.finishActive.all = t.all := by
  show (t.segments ++ t.running) ++ [] ++ _ = t.segments ++ t.running ++ _
  rw [List.append_nil]
  rfl

theorem all_of_active (hactive : t.active = some (kind, value)) (hcalls : t.calls = []) :
    t.all = t.segments ++ [kind.segment value] := by
  unfold Transcript.all Transcript.running
  rw [hactive, hcalls]
  simp

theorem all_extended (kind : StreamingFieldKind) (value : String) (hcalls : t.calls = []) :
    ({ t with active := some (kind, value) } : Transcript).all
      = t.segments ++ [kind.segment value] := by
  unfold Transcript.all Transcript.running
  rw [hcalls]
  simp

theorem all_beginField (kind : StreamingFieldKind) (value : String) (hcalls : t.calls = []) :
    (t.beginField kind value).all = t.all ++ [kind.segment value] := by
  have hall := all_of_active (t := t.beginField kind value) rfl hcalls
  have hbefore : t.all = t.segments ++ t.running := by
    unfold Transcript.all
    rw [hcalls, List.map_nil, List.append_nil]
  rw [hall, hbefore]
  rfl

theorem updateField_of_running (hactive : t.active = some (kind, current)) :
    t.updateField kind value = { t with active := some (kind, current ++ value) } := by
  unfold Transcript.updateField
  rw [hactive]
  exact if_pos rfl

theorem updateField_of_ne (hactive : t.active.map Prod.fst ≠ some kind) :
    t.updateField kind value = t.beginField kind value := by
  unfold Transcript.updateField
  cases hrunning : t.active with
  | none => rfl
  | some field =>
    exact if_neg fun heq => hactive (by rw [hrunning, ← heq]; rfl)

end Shapes

variable {block : Option (String × ℕ)}

theorem address_place {blocks : List Kind} {k : Kind}
    (hopen : ∀ b, block = some b → blocks[b.2]? = some k) :
    address (place blocks k (address blocks k block)) k block = address blocks k block
      ∧ address blocks k block < (place blocks k (address blocks k block)).length := by
  refine ⟨?_, lt_length_of_getElem? (getElem?_place_address hopen)⟩
  rcases address_cases hopen with ⟨-, hplace⟩ | ⟨rfl, haddress, hplace⟩
  · rw [hplace]
  · rw [hplace, haddress, address, List.getLast?_concat, if_pos rfl, List.length_append]
    rfl

theorem Outline.Wf.opened {o : Outline} (h : o.Wf) (kind : StreamingFieldKind) :
    ∀ b, o.opened kind = some b → o.blocks[b.2]? = some kind.block := by
  cases kind with
  | text => exact fun b hb => (h.text b hb).1
  | reasoning => exact fun b hb => (h.reasoning b hb).1

/-- **A transcript in step with an outline**: as many fields as blocks, and
more once a delta has begun a field of a block that was there. -/
structure InStep (t : Transcript) (o : Outline) (again : Prop) : Prop where
  running : ∀ kind value, t.active = some (kind, value) → o.target kind < o.blocks.length
  last : ¬ again → ∀ kind value, t.active = some (kind, value) →
    o.target kind + 1 = o.blocks.length
  calls : ∀ id, .call id ∈ o.blocks ↔ id ∈ t.calls.map StreamedCall.id
  quiet : t.batch = true → t.active = none
  idle : t.batch = false → t.calls = []
  more : again → o.blocks.length < t.all.length
  same : ¬ again → o.blocks.length = t.all.length
  lanes : ¬ again → ∀ (i : ℕ) value, t.all[i]? = some (.reasoning value) →
    value = arrivedReasoning o i

variable {id : String} {o' : Outline}

namespace InStep

variable {t : Transcript} {o : Outline} {again : Prop} {part : StreamPart}

theorem empty : InStep {} {} False := by
  refine ⟨fun kind value h => absurd h (by simp), fun _ kind value h => absurd h (by simp),
    fun id => by simp, fun h => absurd h (by simp), fun _ => rfl, fun h => h.elim, fun _ => rfl,
    fun _ i value h => absurd h (by simp [Transcript.all, Transcript.running])⟩

theorem le (h : InStep t o again) : o.blocks.length ≤ t.all.length := by
  by_cases hagain : again
  · exact Nat.le_of_lt (h.more hagain)
  · exact Nat.le_of_eq (h.same hagain)

theorem arrived_of_le (hw : o.Wf) {i : ℕ} (hi : o.blocks.length ≤ i) : arrivedReasoning o i = "" :=
  lane_eq_empty fun d hd hdi =>
    absurd (lt_length_of_getElem? (hw.placed d hd)) (Nat.not_lt_of_le (hdi ▸ hi))

theorem start (h : InStep t o again) (hw : o.Wf) {kind : StreamingFieldKind}
    (hbatch : t.batch = false) (hblocks : o'.blocks = o.blocks ++ [kind.block])
    (hopened : o'.opened kind = some (id, o.blocks.length)) (hdeltas : o'.deltas = o.deltas) :
    InStep (t.beginField kind "") o' again := by
  have hall := all_beginField kind "" (h.idle hbatch)
  have htarget : o'.target kind = o.blocks.length := by
    unfold Outline.target
    rw [hopened]
    rfl
  have hlength : o'.blocks.length = o.blocks.length + 1 := by
    rw [hblocks, List.length_append, List.length_singleton]
  refine ⟨fun kind' value hactive => ?_, fun _ kind' value hactive => ?_, fun id' => ?_,
    fun hfalse => ?_, h.idle, fun hagain => ?_, fun hagain => ?_, fun hagain i value hi => ?_⟩
  · obtain ⟨rfl, -⟩ := Prod.mk.inj (Option.some.inj hactive)
    rw [htarget, hlength]
    exact Nat.lt_succ_self _
  · obtain ⟨rfl, -⟩ := Prod.mk.inj (Option.some.inj hactive)
    rw [htarget, hlength]
  · rw [hblocks, List.mem_append, List.mem_singleton]
    have hne : Kind.call id' ≠ kind.block := by cases kind <;> simp [StreamingFieldKind.block]
    exact ⟨fun hmem => (h.calls id').mp (hmem.resolve_right hne),
      fun hmem => Or.inl ((h.calls id').mpr hmem)⟩
  · exact absurd (hbatch.symm.trans hfalse) Bool.false_ne_true
  · rw [hall, hlength, List.length_append]
    exact Nat.succ_lt_succ (h.more hagain)
  · rw [hall, hlength, List.length_append, h.same hagain]
    rfl
  · have hsame : arrivedReasoning o' i = arrivedReasoning o i := by
      unfold arrivedReasoning
      rw [hdeltas]
    rw [hsame]
    rw [hall, List.getElem?_append] at hi
    split at hi
    · exact h.lanes hagain i value hi
    · rename_i hge
      rw [List.getElem?_singleton] at hi
      split at hi
      · have hempty : value = "" := by
          cases kind with
          | text => exact absurd hi (by simp [StreamingFieldKind.segment])
          | reasoning => simpa [StreamingFieldKind.segment, eq_comm] using hi
        rw [hempty, arrived_of_le hw (h.same hagain ▸ Nat.le_of_not_lt hge)]
      · exact absurd hi (by simp)

structure Delta (o o' : Outline) (kind : StreamingFieldKind) (value : String) : Prop where
  blocks : o'.blocks = place o.blocks kind.block (o.target kind)
  opened : o'.opened kind = o.opened kind
  arrived : ∀ i, arrivedReasoning o' i
    = arrivedReasoning o i ++ if kind = .reasoning ∧ o.target kind = i then value else ""

theorem delta_text (o : Outline) (value : String) :
    Delta o (o.step (.textDelta value)) .text value := by
  refine ⟨rfl, rfl, fun i => ?_⟩
  rw [if_neg (by simp), String.append_empty]
  rfl

theorem delta_reasoning (o : Outline) (value : String) (sourceKind : Option ReasoningTextKind) :
    Delta o (o.step (.other (.reasoningDelta value sourceKind))) .reasoning value := by
  refine ⟨rfl, rfl, fun i => ?_⟩
  show lane (o.deltas ++ [_]) i _ = _
  rw [lane_append]
  have hlane : o.laneOf (address o.blocks .reasoning o.reasoning) sourceKind
      ∈ [Lane.summary, .late, .text] := by
    cases o.laneOf (address o.blocks .reasoning o.reasoning) sourceKind <;> decide
  congr 1
  by_cases hi : o.target .reasoning = i
  · rw [if_pos ⟨hi, hlane⟩, if_pos ⟨rfl, hi⟩]
  · rw [if_neg (fun h => hi h.1), if_neg (fun h => hi h.2)]

section

variable (h : InStep t o again)

include h

theorem extend {kind : StreamingFieldKind} {current value : String}
    (hactive : t.active = some (kind, current)) (hdelta : Delta o o' kind value) :
    InStep { t with active := some (kind, current ++ value) } o' again := by
  have hlt := h.running kind current hactive
  have hcalls : t.calls = [] := by
    refine h.idle (Bool.eq_false_iff.mpr fun hbatch => ?_)
    exact absurd (h.quiet hbatch) (by simp [hactive])
  have hblocks : o'.blocks = o.blocks := hdelta.blocks.trans (if_pos hlt)
  have htarget : o'.target kind = o.target kind := by
    unfold Outline.target
    rw [hblocks, hdelta.opened]
  have hbefore := all_of_active hactive hcalls
  have hafter := all_extended kind (current ++ value) hcalls
  have hlength : ({ t with active := some (kind, current ++ value) } : Transcript).all.length
      = t.all.length := by
    rw [hafter, hbefore, List.length_append, List.length_append]
    rfl
  refine ⟨fun kind' value' hactive' => ?_, fun hagain kind' value' hactive' => ?_, fun id => ?_,
    fun hbatch => ?_, fun _ => hcalls, fun hagain => ?_, fun hagain => ?_,
    fun hagain i value' hi => ?_⟩
  · obtain ⟨rfl, -⟩ := Prod.mk.inj (Option.some.inj hactive')
    rw [htarget, hblocks]
    exact hlt
  · obtain ⟨rfl, -⟩ := Prod.mk.inj (Option.some.inj hactive')
    rw [htarget, hblocks]
    exact h.last hagain kind current hactive
  · rw [hblocks]
    exact h.calls id
  · exact absurd (h.quiet hbatch) (by simp [hactive])
  · rw [hblocks, hlength]
    exact h.more hagain
  · rw [hblocks, hlength]
    exact h.same hagain
  · -- the running field is the last one, and its block the last block
    have hlast := h.last hagain kind current hactive
    have hsame := h.same hagain
    rw [hbefore, List.length_append, List.length_singleton] at hsame
    have htarget : o.target kind = t.segments.length := by omega
    rw [hdelta.arrived, htarget]
    rw [hafter, List.getElem?_append] at hi
    split at hi
    · rename_i hi'
      rw [if_neg (fun h => Nat.ne_of_lt hi' h.2.symm), String.append_empty]
      refine h.lanes hagain i value' ?_
      rw [hbefore, List.getElem?_append_left hi']
      exact hi
    · rename_i hge
      rw [List.getElem?_singleton] at hi
      split at hi
      · rename_i hzero
        have hi' : t.segments.length = i := by omega
        cases kind with
        | text => exact absurd hi (by simp [StreamingFieldKind.segment])
        | reasoning =>
          obtain rfl : current ++ value = value' := by
            simpa [StreamingFieldKind.segment] using hi
          rw [if_pos ⟨rfl, hi'⟩, ← h.lanes hagain i current]
          rw [hbefore, ← hi', List.getElem?_concat_length]
          rfl
      · exact absurd hi (by simp)

theorem beginField (hw : o.Wf) {kind : StreamingFieldKind} {value : String}
    (hbatch : t.batch = false) {o' : Outline} (hdelta : Delta o o' kind value) :
    InStep (t.beginField kind value) o' (again ∨ o.target kind < o.blocks.length) := by
  have hcalls := h.idle hbatch
  have hall := all_beginField kind value hcalls
  have hplaced := address_place (hw.opened kind)
  have htarget : o'.target kind = o.target kind ∧ o.target kind < o'.blocks.length := by
    unfold Outline.target
    rw [hdelta.blocks, hdelta.opened]
    exact hplaced
  have hnew : ¬ o.target kind < o.blocks.length →
      o.target kind = o.blocks.length ∧ o'.blocks = o.blocks ++ [kind.block] := by
    intro hnot
    rcases address_cases (hw.opened kind) with ⟨hat, -⟩ | ⟨-, haddress, hplace⟩
    · exact absurd (lt_length_of_getElem? hat) hnot
    · exact ⟨haddress, hdelta.blocks.trans hplace⟩
  have hcases : ∀ id, .call id ∈ o'.blocks ↔ .call id ∈ o.blocks := by
    intro id
    rw [hdelta.blocks]
    unfold place
    split
    · exact Iff.rfl
    · rw [List.mem_append, List.mem_singleton]
      have hne : Kind.call id ≠ kind.block := by cases kind <;> simp [StreamingFieldKind.block]
      exact ⟨fun hmem => hmem.resolve_right hne, Or.inl⟩
  refine ⟨fun kind' value' hactive => ?_, fun hagain kind' value' hactive => ?_, fun id => ?_,
    fun hfalse => ?_, fun _ => hcalls, fun hagain => ?_, fun hagain => ?_,
    fun hagain i value' hi => ?_⟩
  · obtain ⟨rfl, -⟩ := Prod.mk.inj (Option.some.inj hactive)
    rw [htarget.1]
    exact htarget.2
  · obtain ⟨rfl, -⟩ := Prod.mk.inj (Option.some.inj hactive)
    obtain ⟨haddress, hblocks⟩ := hnew (fun hlt => hagain (Or.inr hlt))
    rw [htarget.1, hblocks, haddress, List.length_append]
    rfl
  · exact (hcases id).trans (h.calls id)
  · exact absurd (hbatch.symm.trans hfalse) Bool.false_ne_true
  · rw [hall, List.length_append, List.length_singleton]
    by_cases hlt : o.target kind < o.blocks.length
    · have hblocks : o'.blocks = o.blocks := hdelta.blocks.trans (if_pos hlt)
      rw [hblocks]
      exact Nat.lt_succ_of_le h.le
    · obtain ⟨-, hblocks⟩ := hnew hlt
      rw [hblocks, List.length_append, List.length_singleton]
      exact Nat.succ_lt_succ (h.more (hagain.resolve_right hlt))
  · obtain ⟨hold, hlt⟩ := not_or.mp hagain
    obtain ⟨-, hblocks⟩ := hnew hlt
    rw [hall, hblocks, List.length_append, List.length_append, h.same hold]
    rfl
  · obtain ⟨hold, hlt⟩ := not_or.mp hagain
    obtain ⟨haddress, -⟩ := hnew hlt
    rw [hdelta.arrived, haddress]
    rw [hall, List.getElem?_append] at hi
    have hsame := h.same hold
    split at hi
    · rename_i hi'
      rw [if_neg (fun h => by omega), String.append_empty]
      exact h.lanes hold i value' hi
    · rename_i hge
      rw [List.getElem?_singleton] at hi
      split at hi
      · rename_i hzero
        cases kind with
        | text => exact absurd hi (by simp [StreamingFieldKind.segment])
        | reasoning =>
          obtain rfl : value = value' := by simpa [StreamingFieldKind.segment] using hi
          rw [if_pos ⟨rfl, by omega⟩, arrived_of_le hw (by omega), String.empty_append]
      · exact absurd hi (by simp)

theorem still {t' : Transcript} (hactive : t'.active = none)
    (hlength : t'.all.length = t.all.length)
    (hreasoning : ∀ (i : ℕ) value, t'.all[i]? = some (.reasoning value) →
      t.all[i]? = some (.reasoning value))
    (hids : t'.calls.map StreamedCall.id = t.calls.map StreamedCall.id)
    (hidle : t'.batch = false → t'.calls = []) (hblocks : o'.blocks = o.blocks)
    (hdeltas : o'.deltas = o.deltas) : InStep t' o' again := by
  refine ⟨fun kind value hactive' => ?_, fun _ kind value hactive' => ?_, fun id => ?_,
    fun _ => hactive, hidle, fun hagain => ?_, fun hagain => ?_, fun hagain i value hi => ?_⟩
  · exact absurd (hactive.symm.trans hactive') (by simp)
  · exact absurd (hactive.symm.trans hactive') (by simp)
  · rw [hblocks, hids]
    exact h.calls id
  · rw [hblocks, hlength]
    exact h.more hagain
  · rw [hblocks, hlength]
    exact h.same hagain
  · unfold arrivedReasoning
    rw [hdeltas]
    exact h.lanes hagain i value (hreasoning i value hi)

theorem finishActive {o' : Outline} (hblocks : o'.blocks = o.blocks)
    (hdeltas : o'.deltas = o.deltas) : InStep t.finishActive o' again :=
  h.still rfl (by rw [all_finishActive]) (fun i value hi => all_finishActive t ▸ hi) rfl h.idle
    hblocks hdeltas

theorem push {t' : Transcript} (segment : Segment) {k : Kind} (hactive : t'.active = none)
    (hall : t'.all = t.all ++ [segment]) (hsegment : ∀ value, segment ≠ .reasoning value)
    (hblocks : o'.blocks = o.blocks ++ [k]) (hdeltas : o'.deltas = o.deltas)
    (hcalls : ∀ id, .call id ∈ o'.blocks ↔ id ∈ t'.calls.map StreamedCall.id)
    (hidle : t'.batch = false → t'.calls = []) : InStep t' o' again := by
  refine ⟨fun kind value hactive' => ?_, fun _ kind value hactive' => ?_, hcalls,
    fun _ => hactive, hidle, fun hagain => ?_, fun hagain => ?_, fun hagain i value hi => ?_⟩
  · exact absurd (hactive.symm.trans hactive') (by simp)
  · exact absurd (hactive.symm.trans hactive') (by simp)
  · rw [hblocks, hall, List.length_append, List.length_append]
    exact Nat.succ_lt_succ (h.more hagain)
  · rw [hblocks, hall, List.length_append, List.length_append, h.same hagain]
    rfl
  · unfold arrivedReasoning
    rw [hdeltas]
    rw [hall, List.getElem?_append] at hi
    split at hi
    · exact h.lanes hagain i value hi
    · rw [List.getElem?_singleton] at hi
      split at hi
      · exact absurd (Option.some.inj hi) (hsegment value)
      · exact absurd hi (by simp)

theorem updateField (hw : o.Wf) {kind : StreamingFieldKind} {value : String}
    (hbatch : t.batch = false) (hkind : fieldKind part = some kind) {o' : Outline}
    (hdelta : Delta o o' kind value) :
    InStep (t.updateField kind value) o' (again ∨ reopens t o part = true) := by
  have hreopens : reopens t o part
      = (decide (t.active.map Prod.fst ≠ some kind)
          && decide (o.target kind < o.blocks.length)) := by
    unfold reopens
    rw [hkind]
    rfl
  by_cases hrunning : t.active.map Prod.fst = some kind
  · have hnot : ¬ reopens t o part = true := by simp [hreopens, hrunning]
    obtain ⟨⟨running, current⟩, hactive, rfl⟩ := Option.map_eq_some_iff.mp hrunning
    rw [updateField_of_running hactive]
    have hnext := h.extend hactive hdelta
    simpa [hnot] using hnext
  · rw [updateField_of_ne hrunning]
    have hnext := h.beginField hw hbatch hdelta
    have hiff : reopens t o part = true ↔ o.target kind < o.blocks.length := by
      rw [hreopens]
      simp [hrunning]
    rw [hiff]
    exact hnext

/-- A fragment of a call that was seen. -/
theorem extendCall {id arguments : String}
    (hbatch : t.batch = true) : InStep (t.extendCall id arguments) o again := by
  have hids : (t.extendCall id arguments).calls.map StreamedCall.id
      = t.calls.map StreamedCall.id := by
    show (t.calls.map _).map _ = _
    rw [List.map_map]
    refine List.map_congr_left fun call _ => ?_
    show (if call.id = id then _ else call : StreamedCall).id = call.id
    split <;> rfl
  have hall : (t.extendCall id arguments).all
      = t.segments ++ t.running ++ (t.extendCall id arguments).calls.map StreamedCall.segment := rfl
  refine h.still (h.quiet hbatch) ?_ (fun i value hi => ?_) hids (fun hfalse => ?_) rfl rfl
  · have hlength := congrArg List.length hids
    rw [List.length_map, List.length_map] at hlength
    rw [hall, Transcript.all]
    simp only [List.length_append, List.length_map, hlength]
  · rw [hall, List.getElem?_append] at hi
    unfold Transcript.all
    split at hi
    · rename_i hlt
      rw [List.getElem?_append_left hlt]
      exact hi
    · obtain ⟨call, -, hcall⟩ := List.mem_map.mp (List.mem_of_getElem? hi)
      exact absurd hcall (by simp [StreamedCall.segment])
  · exact absurd (hbatch.symm.trans hfalse) (by decide)

theorem observeCall (id arguments : String) (name : Option String) (metadata : ProviderMetadata) :
    InStep (t.step (.toolCallDelta id name arguments metadata))
      (o.step (.toolCallDelta id name arguments metadata)) again := by
  have hmem : t.calls.any (·.id = id) = true ↔ .call id ∈ o.blocks := by
    rw [h.calls id, List.any_eq_true, List.mem_map]
    simp only [decide_eq_true_eq]
  have hbatch : InStep { t.finishActive with batch := true } o again := by
    have hfinished : InStep t.finishActive o again := h.finishActive rfl rfl
    exact hfinished.still rfl rfl (fun i value hi => hi) rfl
      (fun hfalse => absurd hfalse (by simp)) rfl rfl
  have hstep : t.step (.toolCallDelta id name arguments metadata)
      = if t.calls.any (·.id = id) then
          Transcript.extendCall { t.finishActive with batch := true } id arguments
        else { t.finishActive with
          batch := true, calls := t.calls ++ [{ id, name := name.getD "", arguments }] } := rfl
  have hblocks : (o.step (.toolCallDelta id name arguments metadata))
      = { o with blocks := if .call id ∈ o.blocks then o.blocks else o.blocks ++ [.call id] } := rfl
  rw [hstep, hblocks]
  by_cases hany : t.calls.any (·.id = id) = true
  · rw [if_pos hany, if_pos (hmem.mp hany)]
    exact hbatch.extendCall rfl
  · rw [if_neg hany, if_neg (mt hmem.mpr hany)]
    refine hbatch.push (StreamedCall.segment { id, name := name.getD "", arguments }) rfl ?_
      (fun value hfalse => ?_) rfl rfl (fun id' => ?_) (fun hfalse => ?_)
    · show _ ++ _ ++ (t.calls ++ [_]).map StreamedCall.segment = _
      rw [List.map_append, ← List.append_assoc]
      rfl
    · exact absurd hfalse (by simp [StreamedCall.segment])
    · show _ ↔ id' ∈ (t.calls ++ [_]).map StreamedCall.id
      rw [List.map_append, List.mem_append, List.mem_append, h.calls id', List.map_singleton,
        List.mem_singleton, List.mem_singleton, Kind.call.injEq]
    · exact absurd hfalse (by simp)

theorem serverCall (id name arguments : String)
    (serverName : Option String) (dynamic : Bool) (hbatch : t.batch = false) :
    InStep (t.step (.serverToolCall id name arguments serverName dynamic))
      (o.step (.serverToolCall id name arguments serverName dynamic)) again := by
  have hcalls := h.idle hbatch
  refine h.push (.call id name arguments true dynamic
    (Collector.serverMetadata serverName dynamic)) rfl ?_ (fun value hfalse => ?_) rfl rfl
    (fun id' => ?_) h.idle
  · show t.segments ++ t.running ++ [_] ++ [] ++ t.calls.map StreamedCall.segment
      = t.segments ++ t.running ++ t.calls.map StreamedCall.segment ++ [_]
    rw [hcalls, List.map_nil, List.append_nil, List.append_nil, List.append_nil]
  · exact absurd hfalse (by simp)
  · show .call id' ∈ o.blocks ++ [.other] ↔ id' ∈ t.calls.map StreamedCall.id
    rw [List.mem_append, ← h.calls id']
    simp

/-- **What is in step stays in step.** -/
theorem step (hw : o.Wf) (hfollows : t.Follows part) :
    InStep (t.step part) (o.step part) (again ∨ reopens t o part = true) := by
  have hquiet : fieldKind part = none → (again ∨ reopens t o part = true ↔ again) := by
    intro hkind
    unfold reopens
    rw [hkind]
    simp
  cases part with
  | textDelta text => exact h.updateField hw hfollows rfl (delta_text o text)
  | toolCallDelta id name arguments metadata =>
    rw [hquiet rfl]
    exact h.observeCall id arguments name metadata
  | serverToolCall id name arguments serverName dynamic =>
    rw [hquiet rfl]
    exact h.serverCall id name arguments serverName dynamic hfollows.1
  | serverToolResult => exact hfollows.elim
  | usage => rw [hquiet rfl]; exact h
  | finish => rw [hquiet rfl]; exact h
  | responseCompleted => rw [hquiet rfl]; exact h
  | other part =>
    cases part with
    | textStart id =>
      rw [hquiet rfl]
      exact h.start hw hfollows rfl rfl rfl
    | textEnd =>
      rw [hquiet rfl]
      exact h.finishActive rfl rfl
    | reasoningStart =>
      rw [hquiet rfl]
      exact h.start hw hfollows rfl rfl rfl
    | reasoningDelta text kind => exact h.updateField hw hfollows rfl (delta_reasoning o text kind)
    | reasoningEnd =>
      rw [hquiet rfl]
      exact h.finishActive rfl rfl
    | file => exact hfollows.elim
    | source => exact hfollows.elim
    | responseStarted => rw [hquiet rfl]; exact h

end

end InStep

/-! ## Transcripts and content -/

/-- A block, with the text of a reasoning left out. -/
def blind : Content → Content
  | .other (.reasoning _ _ _) => .other (.reasoning "" [] none)
  | block => block

/-- The block a segment is collected as. -/
def Segment.shape : Segment → Content
  | text value => .text value []
  | reasoning _ => .other (.reasoning "" [] none)
  | call id name arguments executed dynamic metadata =>
    .toolCall id name arguments executed dynamic metadata

variable {text : String}

section Blind

variable {c c' : Collector} {content content' : List Content} {i : ℕ}

theorem map_blind_set {metadata : ProviderMetadata} {native : Option NativeReasoning}
    (h : content[i]? = some (.other (.reasoning text metadata native))) (text' : String)
    (metadata' : ProviderMetadata) (native' : Option NativeReasoning) :
    (content.set i (.other (.reasoning text' metadata' native'))).map blind
      = content.map blind := by
  have hset : (content.set i (.other (.reasoning text' metadata' native'))).filterMap
      (fun c => some (blind c)) = content.filterMap fun c => some (blind c) :=
    filterMap_set _ h rfl
  simpa [List.filterMap_eq_map'] using hset

theorem blind_prepend {summary : String}
    (h : prependReasoningSummary content i summary = .ok content') :
    content'.map blind = content.map blind := by
  unfold prependReasoningSummary at h
  split at h
  · rename_i hat
    obtain rfl := Except.ok.inj h
    exact map_blind_set hat _ _ _
  · exact absurd h (by simp)

theorem blind_spliceAll {summaries : List (ℕ × String)}
    (h : Collector.spliceAll summaries content = .ok content') :
    content'.map blind = content.map blind := by
  induction summaries generalizing content with
  | nil =>
    obtain rfl := pure_eq_ok.mp h
    rfl
  | cons e summaries ih =>
    unfold Collector.spliceAll at h
    obtain ⟨next, hnext, h⟩ := bind_eq_ok.mp h
    rw [ih h, blind_prepend hnext]

theorem blind_reasoningEnd {signature : Option String} {native : Option NativeReasoning}
    (h : c.apply (.other (.reasoningEnd id signature native)) = .ok c') :
    c'.content.map blind = c.content.map blind := by
  obtain ⟨index, -, h⟩ := bind_eq_ok.mp h
  obtain ⟨c₁, hsplice, h⟩ := bind_eq_ok.mp h
  obtain ⟨c₂, hnative, hsignature⟩ := bind_eq_ok.mp h
  have hfirst : c₁.content.map blind = c.content.map blind := by
    unfold Collector.spliceSummary at hsplice
    split at hsplice
    · obtain rfl := Except.ok.inj hsplice
      rfl
    · split at hsplice
      · obtain rfl := Except.ok.inj hsplice
        rfl
      · obtain ⟨content, hcontent, hsplice⟩ := bind_eq_ok.mp hsplice
        obtain rfl := pure_eq_ok.mp hsplice
        exact blind_prepend hcontent
  have hsecond : c₂.content.map blind = c₁.content.map blind := by
    unfold Collector.saveNative at hnative
    split at hnative
    · obtain rfl := Except.ok.inj hnative
      rfl
    · split at hnative
      · exact absurd hnative (by simp)
      · split at hnative
        · rename_i hat
          split at hnative
          · exact absurd hnative (by simp)
          · obtain rfl := Except.ok.inj hnative
            exact map_blind_set hat _ _ _
        · exact absurd hnative (by simp)
  have hthird : c'.content.map blind = c₂.content.map blind := by
    unfold Collector.saveSignature at hsignature
    split at hsignature
    · obtain rfl := Except.ok.inj hsignature
      rfl
    · split at hsignature
      · exact absurd hsignature (by simp)
      · split at hsignature
        · rename_i hat
          obtain rfl := Except.ok.inj hsignature
          exact map_blind_set hat _ _ _
        · exact absurd hsignature (by simp)
  rw [hthird, hsecond, hfirst]

theorem blind_appendText {reasoning : Bool}
    (h : appendText content (block.map Prod.snd) text reasoning = .ok (i, content')) :
    (i < content.length → reasoning = true → content'.map blind = content.map blind)
      ∧ (content.length ≤ i →
        content'.map blind = content.map blind ++ [blind (freshBlock text reasoning)]) := by
  obtain ⟨-, ⟨b, b', hat, hext, rfl⟩ | ⟨-, rfl, rfl⟩⟩ := appendText_cases h
  · refine ⟨fun _ hreasoning => ?_, fun hle => ?_⟩
    · subst hreasoning
      unfold extendBlock at hext
      split at hext
      · exact absurd hext (by simp)
      · obtain rfl : _ = b' := by simpa using hext
        exact map_blind_set hat _ _ _
      · exact absurd hext (by simp)
    · exact absurd (List.getElem?_eq_some_iff.mp hat).1 (Nat.not_lt_of_le hle)
  · refine ⟨fun hlt => absurd hlt (Nat.lt_irrefl _), fun _ => ?_⟩
    rw [List.map_append]
    rfl

end Blind

/-- What holds of every field and of every call that is streamed whole holds of
the finished segments. -/
theorem segments_step {P : Segment → Prop}
    (hfield : ∀ field value, P (StreamingFieldKind.segment field value))
    (hserver : ∀ id name arguments serverName dynamic,
      P (.call id name arguments true dynamic (Collector.serverMetadata serverName dynamic)))
    {t : Transcript} (h : ∀ s ∈ t.segments, P s) (part : StreamPart) :
    ∀ s ∈ (t.step part).segments, P s := by
  have hfinish : ∀ s ∈ t.finishActive.segments, P s := by
    intro s hs
    rcases List.mem_append.mp hs with hs | hs
    · exact h s hs
    · obtain ⟨⟨field, value⟩, -, rfl⟩ := Option.map_eq_some_iff.mp (Option.mem_toList.mp hs)
      exact hfield field value
  have hupdate : ∀ field value, ∀ s ∈ (t.updateField field value).segments, P s := by
    intro field value
    unfold Transcript.updateField
    split
    · split
      · exact h
      · exact hfinish
    · exact hfinish
  cases part with
  | textDelta text => exact hupdate .text text
  | toolCallDelta id name arguments metadata =>
    have hstep : (t.step (.toolCallDelta id name arguments metadata)).segments
        = t.finishActive.segments := by
      show (if t.calls.any (·.id = id) then Transcript.extendCall _ id arguments
        else _ : Transcript).segments = _
      split <;> rfl
    rw [hstep]
    exact hfinish
  | serverToolCall id name arguments serverName dynamic =>
    intro s hs
    rcases List.mem_append.mp hs with hs | hs
    · exact hfinish s hs
    · rw [List.mem_singleton.mp hs]
      exact hserver id name arguments serverName dynamic
  | serverToolResult => exact h
  | usage => exact h
  | finish => exact h
  | responseCompleted => exact h
  | other part =>
    cases part with
    | textStart => exact hfinish
    | textEnd => exact hfinish
    | reasoningStart => exact hfinish
    | reasoningDelta text sourceKind => exact hupdate .reasoning text
    | reasoningEnd => exact hfinish
    | file => exact h
    | source => exact h
    | responseStarted => exact h

theorem finished_step {t : Transcript} (h : ∀ s ∈ t.segments, ∀ id, kind s.shape ≠ .call id)
    (part : StreamPart) : ∀ s ∈ (t.step part).segments, ∀ id, kind s.shape ≠ .call id := by
  refine segments_step (fun field value id => ?_) (fun _ _ _ _ _ id => ?_) h part
  · cases field <;> simp [StreamingFieldKind.segment, Segment.shape, kind]
  · simp [Segment.shape, kind]

/-- **The content is shaped as the transcript.** -/
structure Shaped (t : Transcript) (content : List Content) : Prop where
  blocks : content.map blind = t.all.map Segment.shape
  finished : ∀ s ∈ t.segments, ∀ id, kind s.shape ≠ .call id

variable {b : Content} {field : StreamingFieldKind}

namespace Shaped

variable {t : Transcript} {o : Outline} {again : Prop} {c c' : Collector}

theorem blocks_begin (h : Shaped t c.content) {value : String} (hcalls : t.calls = [])
    {content : List Content}
    (hcontent : content.map blind = c.content.map blind ++ [(field.segment value).shape]) :
    content.map blind = (t.beginField field value).all.map Segment.shape := by
  rw [hcontent, all_beginField field value hcalls, List.map_append, h.blocks]
  rfl

theorem eq_text {value : String} {metadata : ProviderMetadata}
    (h : blind b = .text value metadata) : b = .text value metadata := by
  unfold blind at h
  split at h
  · exact absurd h (by simp)
  · exact h

theorem target_running (h : Shaped t c.content) (hin : InStep t o again) (hagain : ¬ again)
    {current : String} (hbatch : t.batch = false) (hactive : t.active = some (field, current)) :
    o.target field = t.segments.length
      ∧ c.content.map blind = t.segments.map Segment.shape ++ [(field.segment current).shape] := by
  have hall := all_of_active hactive (hin.idle hbatch)
  have hlast := hin.last hagain field current hactive
  rw [hin.same hagain, hall, List.length_append, List.length_singleton] at hlast
  refine ⟨Nat.succ.inj hlast, ?_⟩
  rw [h.blocks, hall, List.map_append]
  rfl

theorem target_fresh {part : StreamPart} (hkind : fieldKind part = some field)
    (hrunning : t.active.map Prod.fst ≠ some field) (hfresh : reopens t o part = false) :
    o.blocks.length ≤ o.target field := by
  refine Nat.le_of_not_lt fun hlt => ?_
  unfold reopens at hfresh
  rw [hkind] at hfresh
  simp [hrunning, hlt] at hfresh

section

variable (h : Shaped t c.content) (hin : InStep t o again) (hagain : ¬ again) (hm : Mirrors c o)
  (hbatch : t.batch = false)

include h hin hagain hm hbatch

theorem textDelta {text : String} (hfresh : reopens t o (.textDelta text) = false)
    (happly : c.apply (.textDelta text) = .ok c') :
    c'.content.map blind = (t.updateField .text text).all.map Segment.shape := by
  obtain ⟨⟨i, content⟩, happend, happly⟩ := bind_eq_ok.mp happly
  obtain rfl := pure_eq_ok.mp happly
  obtain ⟨hi, hcases⟩ := appendText_cases happend
  have htarget : i = o.target .text := by
    rw [hi, hm.kinds, hm.textBlock]
    rfl
  by_cases hrunning : t.active.map Prod.fst = some .text
  · obtain ⟨⟨_, current⟩, hactive, rfl⟩ := Option.map_eq_some_iff.mp hrunning
    obtain ⟨hlast, hblind⟩ := h.target_running hin hagain hbatch hactive
    rw [htarget, hlast] at hcases
    rw [updateField_of_running hactive, all_extended _ _ (hin.idle hbatch), List.map_append]
    rcases hcases with ⟨b, b', hat, hext, rfl⟩ | ⟨-, hlength, -⟩
    · have hb : blind b = .text current [] := by
        have hget : (c.content.map blind)[t.segments.length]? = some (blind b) := by
          rw [List.getElem?_map, hat]
          rfl
        rw [hblind, List.getElem?_append_right (by simp), List.length_map, Nat.sub_self] at hget
        exact (Option.some.inj hget).symm
      obtain rfl := eq_text hb
      obtain rfl : Content.text (current ++ text) [] = b' := by simpa [extendBlock] using hext
      show (c.content.set _ _).map blind = _
      rw [List.map_set, hblind, List.set_append_right _ _ (by simp), List.length_map, Nat.sub_self]
      rfl
    · have hsame := congrArg List.length hblind
      rw [List.length_map, List.length_append, List.length_map, List.length_singleton] at hsame
      omega
  · rw [updateField_of_ne hrunning]
    refine h.blocks_begin (hin.idle hbatch) ((blind_appendText happend).2 ?_)
    rw [htarget, hm.length]
    exact target_fresh rfl hrunning hfresh

theorem reasoningDelta {text : String} {sourceKind : Option ReasoningTextKind}
    (hfresh : reopens t o (.other (.reasoningDelta text sourceKind)) = false)
    (happly : c.apply (.other (.reasoningDelta text sourceKind)) = .ok c') :
    c'.content.map blind = (t.updateField .reasoning text).all.map Segment.shape := by
  obtain ⟨⟨i, content⟩, happend, happly⟩ := bind_eq_ok.mp happly
  have hi := (appendText_cases happend).1
  have htarget : i = o.target .reasoning := by
    rw [hi, hm.kinds, hm.reasoningBlock]
    rfl
  -- the second append only adds to the block of the first
  have hsecond : c'.content.map blind = content.map blind := by
    dsimp only at happly
    split at happly
    · obtain rfl := pure_eq_ok.mp happly
      rfl
    · obtain ⟨⟨j, content'⟩, hagain', happly⟩ := bind_eq_ok.mp happly
      obtain rfl := pure_eq_ok.mp happly
      have hagain'' : appendText content ((some ("", i)).map Prod.snd) text true
          = .ok (j, content') := hagain'
      have hj : j = i := (appendText_cases hagain'').1
      have hlt : i < content.length := by
        have hat := (kinds_appendText happend).2
        have hlt := lt_length_of_getElem? hat
        rwa [List.length_map] at hlt
      exact (blind_appendText hagain'').1 (hj ▸ hlt) rfl
  rw [hsecond]
  by_cases hrunning : t.active.map Prod.fst = some .reasoning
  · obtain ⟨⟨_, current⟩, hactive, rfl⟩ := Option.map_eq_some_iff.mp hrunning
    obtain ⟨hlast, hblind⟩ := h.target_running hin hagain hbatch hactive
    have hlt : i < c.content.length := by
      have hsame := congrArg List.length hblind
      rw [List.length_map, List.length_append, List.length_map, List.length_singleton] at hsame
      omega
    rw [updateField_of_running hactive, all_extended _ _ (hin.idle hbatch), List.map_append,
      (blind_appendText happend).1 hlt rfl, hblind]
    rfl
  · rw [updateField_of_ne hrunning]
    refine h.blocks_begin (hin.idle hbatch) ((blind_appendText happend).2 ?_)
    rw [htarget, hm.length]
    exact target_fresh rfl hrunning hfresh

end

def addFragment (arguments : String) : Content → Content
  | .toolCall id name current executed dynamic metadata =>
    .toolCall id name (current ++ arguments) executed dynamic metadata
  | block => block

theorem kind_blind (b : Content) : kind (blind b) = kind b := by
  cases b with
  | other block => cases block <;> rfl
  | _ => rfl

theorem map_kind_blind (content : List Content) :
    (content.map blind).map kind = content.map kind := by
  rw [List.map_map]
  exact List.map_congr_left fun b _ => kind_blind b

theorem map_addFragment {content : List Content} (h : Shaped t content) (id arguments : String) :
    (t.all.map Segment.shape).map
        (fun b => if kind b = .call id then addFragment arguments b else b)
      = (t.extendCall id arguments).all.map Segment.shape := by
  have hfield : ∀ s ∈ t.segments ++ t.running, (if kind s.shape = .call id
      then addFragment arguments s.shape else s.shape) = s.shape := by
    intro s hs
    refine if_neg ?_
    rcases List.mem_append.mp hs with hs | hs
    · exact h.finished s hs id
    · obtain ⟨⟨field, value⟩, -, rfl⟩ := Option.map_eq_some_iff.mp (Option.mem_toList.mp hs)
      cases field <;> simp [StreamingFieldKind.segment, Segment.shape, kind]
  have hcall : ∀ call ∈ t.calls, (if kind (StreamedCall.segment call).shape = .call id
      then addFragment arguments call.segment.shape else call.segment.shape)
      = (StreamedCall.segment (if call.id = id then
          { call with arguments := call.arguments ++ arguments } else call)).shape := by
    intro call _
    have hkind : kind (StreamedCall.segment call).shape = .call id ↔ call.id = id := by
      show Kind.call call.id = .call id ↔ _
      rw [Kind.call.injEq]
    by_cases hid : call.id = id
    · rw [if_pos (hkind.mpr hid), if_pos hid]
      rfl
    · rw [if_neg (mt hkind.mp hid), if_neg hid]
  have hfront := List.map_congr_left hfield
  have hback := List.map_congr_left hcall
  show ((t.segments ++ t.running ++ t.calls.map StreamedCall.segment).map Segment.shape).map _
    = (t.segments ++ t.running ++ (t.calls.map _).map StreamedCall.segment).map Segment.shape
  generalize t.segments ++ t.running = front at hfront
  rw [List.map_append, List.map_append, List.map_append, List.map_map, List.map_map, List.map_map,
    List.map_map, List.map_map]
  exact congrArg₂ _ hfront hback

/-- A fragment of a call that was seen. -/
theorem extendCall (h : Shaped t c.content) (hm : Mirrors c o) {id arguments : String} {i : ℕ}
    (hi : IndexMap.get c.toolIndices id = some i)
    (happly : c.extendCall i none arguments [] = .ok c') :
    c'.content.map blind = (t.extendCall id arguments).all.map Segment.shape := by
  have hkind := (hm.indexed id i).mp hi
  rw [← hm.kinds] at hkind
  unfold Collector.extendCall at happly
  split at happly
  · rename_i id' name current executed dynamic metadata hat
    obtain ⟨-, -, happly⟩ := bind_eq_ok.mp happly
    obtain ⟨metadata', hmerge, happly⟩ := bind_eq_ok.mp happly
    obtain rfl := pure_eq_ok.mp hmerge
    obtain rfl := pure_eq_ok.mp happly
    show (c.content.set i (addFragment arguments
      (.toolCall id' name current executed dynamic metadata))).map blind = _
    have hgetBlind : (c.content.map blind)[i]?
        = some (.toolCall id' name current executed dynamic metadata) := by
      rw [List.getElem?_map, hat]
      rfl
    have honly : ∀ (j : ℕ) b, (c.content.map blind)[j]? = some b → kind b = .call id → j = i := by
      intro j b hb hcall
      have hj : IndexMap.get c.toolIndices id = some j := by
        rw [hm.indexed id j, ← hm.kinds, ← map_kind_blind, List.getElem?_map, hb, ← hcall]
        rfl
      exact Option.some.inj (hj.symm.trans hi)
    have hcall : kind (Content.toolCall id' name current executed dynamic metadata) = .call id := by
      rw [List.getElem?_map, hat] at hkind
      exact Option.some.inj hkind
    have hset := map_ite_eq_set (f := addFragment arguments) hgetBlind hcall honly
    rw [List.map_set]
    show (c.content.map blind).set i (addFragment arguments
      (.toolCall id' name current executed dynamic metadata)) = _
    rw [← hset, h.blocks]
    exact h.map_addFragment id arguments
  · exact absurd happly (by simp)

/-- The first fragment of a call. -/
theorem beginCall (h : Shaped t c.content) {name arguments : String}
    (hi : IndexMap.get c.toolIndices id = none)
    (happly : c.toolCallDelta id (some name) arguments [] = .ok c') :
    c'.content.map blind = t.all.map Segment.shape
      ++ [(StreamedCall.segment { id, name, arguments }).shape] := by
  unfold Collector.toolCallDelta Collector.openCall at happly
  rw [hi] at happly
  dsimp only at happly
  unfold Collector.extendCall at happly
  rw [List.getElem?_concat_length] at happly
  obtain ⟨metadata, hmerge, happly⟩ := bind_eq_ok.mp happly
  obtain rfl := pure_eq_ok.mp happly
  show ((c.content ++ [_]).set c.content.length _).map blind = _
  rw [List.set_append_right _ _ (Nat.le_refl _), Nat.sub_self, List.map_append, h.blocks,
    String.empty_append]
  rfl

/-- **The content keeps the shape of the transcript** while no block is
reopened. -/
theorem step {part : StreamPart} (h : Shaped t c.content) (hin : InStep t o again)
    (hagain : ¬ again) (hm : Mirrors c o) (hfollows : t.Follows part)
    (hfresh : reopens t o part = false) (happly : c.apply part = .ok c') :
    Shaped (t.step part) c'.content := by
  refine ⟨?_, finished_step h.finished part⟩
  cases part with
  | textDelta text => exact h.textDelta hin hagain hm hfollows hfresh happly
  | toolCallDelta id name arguments metadata =>
    obtain ⟨rfl, -, hname⟩ := hfollows
    have hmem : t.calls.any (·.id = id) = true ↔ ∃ i, IndexMap.get c.toolIndices id = some i := by
      rw [← hm.indexed.mem id, hin.calls id, List.any_eq_true, List.mem_map]
      simp only [decide_eq_true_eq]
    have hstep : t.step (.toolCallDelta id name arguments [])
        = if t.calls.any (·.id = id) then
            Transcript.extendCall { t.finishActive with batch := true } id arguments
          else { t.finishActive with
            batch := true, calls := t.calls ++ [{ id, name := name.getD "", arguments }] } := rfl
    rw [hstep]
    split at hname
    · rename_i hany
      subst hname
      rw [if_pos hany]
      obtain ⟨i, hi⟩ := hmem.mp hany
      have hfinished : Shaped { t.finishActive with batch := true } c.content := by
        refine ⟨?_, finished_step h.finished (.other (.textEnd ""))⟩
        rw [h.blocks, ← all_finishActive t]
        rfl
      refine hfinished.extendCall hm hi ?_
      have happly : c.toolCallDelta id none arguments [] = .ok c' := happly
      unfold Collector.toolCallDelta Collector.openCall at happly
      rw [hi] at happly
      exact happly
    · rename_i hany
      obtain ⟨⟨name, rfl, -⟩, -⟩ := hname
      rw [if_neg hany]
      have hi : IndexMap.get c.toolIndices id = none := by
        cases hget : IndexMap.get c.toolIndices id with
        | none => rfl
        | some i => exact absurd (hmem.mpr ⟨i, hget⟩) hany
      rw [h.beginCall hi happly]
      show _ = (t.segments ++ t.running ++ [] ++ (t.calls ++ [_]).map StreamedCall.segment).map
        Segment.shape
      unfold Transcript.all
      simp only [List.append_nil, List.map_append, List.append_assoc]
      rfl
  | serverToolCall id name arguments serverName dynamic =>
    obtain rfl := Except.ok.inj happly
    show (c.content ++ [_]).map blind = (t.segments ++ t.running ++ [_] ++ []
      ++ t.calls.map StreamedCall.segment).map Segment.shape
    have hall : t.all = t.segments ++ t.running := by
      unfold Transcript.all
      rw [hin.idle hfollows.1, List.map_nil, List.append_nil]
    rw [hin.idle hfollows.1, List.map_nil, List.append_nil, List.append_nil, ← hall,
      List.map_append, List.map_append, h.blocks]
    rfl
  | serverToolResult => exact hfollows.elim
  | usage => obtain rfl := Except.ok.inj happly; exact h.blocks
  | finish => obtain rfl := Except.ok.inj happly; exact h.blocks
  | responseCompleted =>
    obtain ⟨_, -, happly⟩ := bind_eq_ok.mp happly
    obtain ⟨_, -, happly⟩ := bind_eq_ok.mp happly
    obtain rfl := pure_eq_ok.mp happly
    exact h.blocks
  | other part =>
    cases part with
    | textStart id =>
      obtain rfl := Except.ok.inj happly
      exact h.blocks_begin (hin.idle hfollows) (List.map_append ..)
    | textEnd =>
      obtain ⟨_, -, happly⟩ := bind_eq_ok.mp happly
      obtain rfl := pure_eq_ok.mp happly
      exact h.blocks.trans (congrArg _ (all_finishActive t).symm)
    | reasoningStart =>
      obtain rfl := Except.ok.inj happly
      exact h.blocks_begin (hin.idle hfollows) (List.map_append ..)
    | reasoningDelta text sourceKind =>
      exact h.reasoningDelta hin hagain hm hfollows hfresh happly
    | reasoningEnd =>
      exact (blind_reasoningEnd happly).trans
        (h.blocks.trans (congrArg _ (all_finishActive t).symm))
    | file => exact hfollows.elim
    | source => exact hfollows.elim
    | responseStarted => obtain rfl := Except.ok.inj happly; exact h.blocks

end Shaped

/-! ## What can be committed to -/

/-- The blocks that can be committed to. -/
def committable : Content → Bool
  | .text _ _ => true
  | .other (.reasoning _ _ _) => true
  | .toolCall _ _ _ _ _ _ => true
  | _ => false

theorem committable_blind (b : Content) : committable (blind b) = committable b := by
  cases b with
  | other block => cases block <;> rfl
  | _ => rfl

section

variable {content content' : List Content} (h : ∀ b ∈ content, committable b = true)

include h

theorem committable_of_blind (hblind : content'.map blind = content.map blind) :
    ∀ b ∈ content', committable b = true := by
  intro b hb
  have hmem : blind b ∈ content.map blind := hblind ▸ List.mem_map_of_mem hb
  obtain ⟨b', hb', heq⟩ := List.mem_map.mp hmem
  rw [← committable_blind, ← heq, committable_blind]
  exact h b' hb'

theorem committable_appendText {reasoning : Bool} {i : ℕ}
    (happend : appendText content (block.map Prod.snd) text reasoning = .ok (i, content')) :
    ∀ b ∈ content', committable b = true := by
  obtain ⟨-, ⟨b, b', -, hext, rfl⟩ | ⟨-, -, rfl⟩⟩ := appendText_cases happend
  · intro x hx
    rcases List.mem_or_eq_of_mem_set hx with hx | rfl
    · exact h x hx
    · unfold extendBlock at hext
      split at hext
      · cases reasoning with
        | true => exact absurd hext (by simp)
        | false =>
          obtain rfl : _ = x := by simpa using hext
          rfl
      · cases reasoning with
        | true =>
          obtain rfl : _ = x := by simpa using hext
          rfl
        | false => exact absurd hext (by simp)
      · exact absurd hext (by simp)
  · intro x hx
    rcases List.mem_append.mp hx with hx | hx
    · exact h x hx
    · rw [List.mem_singleton.mp hx]
      cases reasoning <;> rfl

end

theorem committable_apply {c c' : Collector} {t : Transcript} {part : StreamPart}
    (h : ∀ b ∈ c.content, committable b = true) (hfollows : t.Follows part)
    (happly : c.apply part = .ok c') : ∀ b ∈ c'.content, committable b = true := by
  have hpush : ∀ b, committable b = true → ∀ x ∈ c.content ++ [b], committable x = true := by
    intro b hb x hx
    rcases List.mem_append.mp hx with hx | hx
    · exact h x hx
    · rw [List.mem_singleton.mp hx]
      exact hb
  cases part with
  | textDelta text =>
    obtain ⟨⟨i, content⟩, happend, happly⟩ := bind_eq_ok.mp happly
    obtain rfl := pure_eq_ok.mp happly
    exact committable_appendText h happend
  | toolCallDelta id name arguments metadata =>
    have happly : (c.openCall id).2.extendCall (c.openCall id).1 name arguments metadata
      = .ok c' := happly
    have hopen : ∀ b ∈ (c.openCall id).2.content, committable b = true := by
      unfold Collector.openCall
      split
      · exact h
      · exact hpush _ rfl
    unfold Collector.extendCall at happly
    split at happly
    · obtain ⟨_, -, happly⟩ := bind_eq_ok.mp happly
      obtain ⟨_, -, happly⟩ := bind_eq_ok.mp happly
      obtain rfl := pure_eq_ok.mp happly
      intro x hx
      rcases List.mem_or_eq_of_mem_set hx with hx | rfl
      · exact hopen x hx
      · rfl
    · exact absurd happly (by simp)
  | serverToolCall => obtain rfl := Except.ok.inj happly; exact hpush _ rfl
  | serverToolResult => exact hfollows.elim
  | usage => obtain rfl := Except.ok.inj happly; exact h
  | finish => obtain rfl := Except.ok.inj happly; exact h
  | responseCompleted =>
    obtain ⟨_, -, happly⟩ := bind_eq_ok.mp happly
    obtain ⟨_, -, happly⟩ := bind_eq_ok.mp happly
    obtain rfl := pure_eq_ok.mp happly
    exact h
  | other part =>
    cases part with
    | textStart => obtain rfl := Except.ok.inj happly; exact hpush _ rfl
    | textEnd =>
      obtain ⟨_, -, happly⟩ := bind_eq_ok.mp happly
      obtain rfl := pure_eq_ok.mp happly
      exact h
    | reasoningStart => obtain rfl := Except.ok.inj happly; exact hpush _ rfl
    | reasoningDelta text sourceKind =>
      obtain ⟨⟨i, content⟩, happend, happly⟩ := bind_eq_ok.mp happly
      have hfirst := committable_appendText h happend
      dsimp only at happly
      split at happly
      · obtain rfl := pure_eq_ok.mp happly
        exact hfirst
      · obtain ⟨⟨j, content'⟩, hagain, happly⟩ := bind_eq_ok.mp happly
        obtain rfl := pure_eq_ok.mp happly
        have hagain : appendText content ((some ("", i)).map Prod.snd) text true
            = .ok (j, content') := hagain
        exact committable_appendText hfirst hagain
    | reasoningEnd => exact committable_of_blind h (blind_reasoningEnd happly)
    | file => exact hfollows.elim
    | source => exact hfollows.elim
    | responseStarted => obtain rfl := Except.ok.inj happly; exact h

/-! ## Runs -/

/-- **A collection in step with the transcript**, whose content has the shape of
the transcript as long as no block is reopened. -/
structure Follows (c : Collector) (parts : List StreamPart) : Prop where
  tracks : Tracks c parts
  inStep : InStep (transcript parts) (outline parts) (¬ Fresh parts)
  shaped : Fresh parts → Shaped (transcript parts) c.content
  committable : ∀ b ∈ c.content, committable b = true

theorem Follows.empty : Follows {} [] := by
  refine ⟨Tracks.empty, ?_, fun _ => ⟨rfl, fun s hs => absurd hs List.not_mem_nil⟩,
    fun b hb => absurd hb List.not_mem_nil⟩
  have hfresh : ¬ Fresh [] ↔ False := ⟨fun h => h along_nil, False.elim⟩
  rw [hfresh]
  exact InStep.empty

theorem Follows.step {c c' : Collector} {parts : List StreamPart} {part : StreamPart}
    (h : Follows c parts) (hfollows : (transcript parts).Follows part)
    (happly : c.apply part = .ok c') : Follows c' (parts ++ [part]) := by
  have hfresh : Fresh (parts ++ [part]) ↔ Fresh parts
      ∧ reopens (transcript parts) (outline parts) part = false := along_concat
  have hagain : ¬ Fresh (parts ++ [part]) ↔ ¬ Fresh parts
      ∨ reopens (transcript parts) (outline parts) part = true := by
    rw [hfresh, not_and_or, Bool.not_eq_false]
  refine ⟨h.tracks.step happly, ?_, fun hnext => ?_,
    committable_apply h.committable hfollows happly⟩
  · rw [transcript_concat, outline_concat, hagain]
    exact h.inStep.step (wf_outline parts) hfollows
  · obtain ⟨hbefore, hpart⟩ := hfresh.mp hnext
    rw [transcript_concat]
    exact (h.shaped hbefore).step h.inStep (not_not.mpr hbefore) h.tracks.mirrors hfollows hpart
      happly

def Segment.Plain : Segment → Prop
  | call _ _ _ _ _ metadata => clientToolMetadataPresent metadata = false
  | _ => True

/-- What a segment is committed to as. -/
theorem assistantPart_of_shape {s : Segment} (hb : blind b = s.shape)
    (hreasoning : ∀ value, s = .reasoning value → body b = value) (hplain : s.Plain) :
    assistantPart b = s.saying := by
  cases s with
  | text value =>
    obtain rfl := Shaped.eq_text hb
    rfl
  | reasoning value =>
    have hbody := hreasoning value rfl
    unfold blind at hb
    split at hb
    · rename_i current metadata native
      obtain rfl : current = value := hbody
      rfl
    · rename_i hnot
      exact absurd hb (hnot _ _ _)
  | call id name arguments executed dynamic metadata =>
    have hb' : b = .toolCall id name arguments executed dynamic metadata := by
      unfold blind at hb
      split at hb
      · exact absurd hb (by simp [Segment.shape])
      · exact hb
    rw [hb']
    show (if clientToolMetadataPresent metadata then none
      else callSaying id name arguments executed dynamic) = _
    rw [hplain]
    rfl

theorem plain_serverMetadata (serverName : Option String) (dynamic : Bool) :
    clientToolMetadataPresent (Collector.serverMetadata serverName dynamic) = false := by
  cases dynamic <;> cases serverName <;> rfl

/-- No call of a transcript has metadata of a client tool. -/
theorem plain_of_transcript {parts : List StreamPart} :
    ∀ s ∈ (transcript parts).all, s.Plain := by
  have hfield : ∀ field value, (StreamingFieldKind.segment field value).Plain := by
    intro field value
    cases field <;> trivial
  have hsegments : ∀ s ∈ (transcript parts).segments, s.Plain := by
    induction parts using List.reverseRecOn with
    | nil => exact fun s hs => absurd hs List.not_mem_nil
    | append_singleton parts part ih =>
      rw [transcript_concat]
      exact segments_step hfield (fun _ _ _ serverName dynamic =>
        plain_serverMetadata serverName dynamic) ih part
  intro s hs
  rcases List.mem_append.mp hs with hs | hs
  · rcases List.mem_append.mp hs with hs | hs
    · exact hsegments s hs
    · obtain ⟨⟨field, value⟩, -, rfl⟩ := Option.map_eq_some_iff.mp (Option.mem_toList.mp hs)
      exact hfield field value
  · obtain ⟨call, -, rfl⟩ := List.mem_map.mp hs
    rfl

/-! ## Commitments -/

theorem bounded_of_saying {s : Segment} {saying : Saying} (h : s.saying = some saying) :
    saying.part.Bounded := by
  cases s with
  | text value => exact bounded_of_counted h (by simp)
  | reasoning value => exact bounded_of_counted h (by simp)
  | call id name arguments executed dynamic metadata =>
    have h : callSaying id name arguments executed dynamic = some saying := h
    unfold callSaying at h
    split at h
    · exact absurd h (by simp)
    · exact bounded_of_counted h (by simp)

/-- **What is hashed for a streamed and for a collected turn.** -/
def streamInputs (sha256 : List ℕ → List ℕ) (parts : List StreamPart) (content : List Content) :
    List (List ℕ) :=
  idInputs parts
    ++ (commitInputs sha256 ((transcript parts).all.filterMap fun s => s.saying.map (·.part))
      ++ commitInputs sha256 (content.filterMap fun b => (assistantPart b).map (·.part)))

variable {collector : Collector} {said : List Saying}

section Commit

variable {sha256 : List ℕ → List ℕ} {parts : List StreamPart} {r : Collected}
  {c : AssistantTurnCommitment}

theorem follows_of_collectGenerate {ε : Type} {embed : ModelError → ε}
    (hcollected : collectGenerate embed (parts.map .ok) = .ok r)
    (hfollows : Along (fun pre part => (transcript pre).Follows part) parts) :
    ∃ collector, Follows collector parts
      ∧ Collector.spliceAll collector.reasoningSummaries collector.content = .ok r.content := by
  obtain ⟨collector, hcollector, hsplice, -⟩ := run_of_collectGenerate Follows.empty
    (fun pre part post _ _ hparts h happly => h.step (hfollows pre part post hparts) happly)
    hcollected
  exact ⟨collector, hcollector, hsplice⟩

theorem kinds_of_splice (h : Follows collector parts)
    (hsplice : Collector.spliceAll collector.reasoningSummaries collector.content = .ok r.content) :
    r.content.map kind = (outline parts).blocks :=
  (spliceAll_eq_ok h.tracks.mirrors.nodup hsplice).1.trans h.tracks.mirrors.kinds

theorem textSaying_inj {tag : ℕ} {value value' : String}
    (h : (textSaying tag value).map (·.part) = (textSaying tag value').map (·.part))
    (hsome : textSaying tag value' ≠ none) : value = value' := by
  obtain ⟨saying', hsaying'⟩ := Option.ne_none_iff_exists'.mp hsome
  rw [hsaying', Option.map_some] at h
  obtain ⟨saying, hsaying, hpart⟩ := Option.map_eq_some_iff.mp h
  rw [eq_of_counted hsaying, eq_of_counted hsaying'] at hpart
  have hbytes : [bytes value] = [bytes value'] := congrArg Part.fields hpart
  exact bytes_injective (List.singleton_inj.mp hbytes)

section

variable (h : Follows collector parts)
  (hsplice : Collector.spliceAll collector.reasoningSummaries collector.content = .ok r.content)

include h hsplice

/-- **Where both groupings are one**, so are the parts. -/
theorem parts_of_grouped (hgrouped : Grouped parts) :
    r.content.map assistantPart = (transcript parts).all.map Segment.saying := by
  have hshape : r.content.map blind = (transcript parts).all.map Segment.shape :=
    (blind_spliceAll hsplice).trans (h.shaped hgrouped.fresh).blocks
  have hlength := congrArg List.length hshape
  rw [List.length_map, List.length_map] at hlength
  refine List.ext_getElem? fun i => ?_
  rw [List.getElem?_map, List.getElem?_map]
  cases hs : (transcript parts).all[i]? with
  | none =>
    have hnone : r.content[i]? = none := by
      rw [List.getElem?_eq_none_iff] at hs ⊢
      rwa [hlength]
    rw [hnone]
    rfl
  | some s =>
    have hat : (r.content.map blind)[i]? = some s.shape := by
      rw [hshape, List.getElem?_map, hs]
      rfl
    rw [List.getElem?_map] at hat
    obtain ⟨b, hb, hblind⟩ := Option.map_eq_some_iff.mp hat
    rw [hb]
    refine congrArg some (assistantPart_of_shape hblind (fun value hvalue => ?_)
      (plain_of_transcript s (List.mem_of_getElem? hs)))
    subst hvalue
    have hkind : (outline parts).blocks[i]? = some .reasoning := by
      rw [← kinds_of_splice h hsplice, List.getElem?_map, hb, Option.map_some,
        ← Shaped.kind_blind, hblind]
      rfl
    have hbody := body_of_collectGenerate h.tracks hsplice hkind
    rw [bodyAt_of_getElem? hb, ← hgrouped.ordered i] at hbody
    rw [hbody]
    exact (h.inStep.lanes (not_not.mpr hgrouped.fresh) i value hs).symm

/-- **Where the parts are one, so are both groupings.** -/
theorem grouped_of_parts
    (hparts : r.content.map (fun b => (assistantPart b).map (·.part))
      = (transcript parts).all.map fun s => s.saying.map (·.part))
    (hsome : ∀ s ∈ (transcript parts).all, s.saying ≠ none) : Grouped parts := by
  have hkinds := kinds_of_splice h hsplice
  have hlength : (outline parts).blocks.length = (transcript parts).all.length := by
    have hlength := congrArg List.length hparts
    rw [List.length_map, List.length_map] at hlength
    rw [← hkinds, List.length_map, hlength]
  have hfresh : Fresh parts := by
    by_contra hnot
    exact absurd hlength (Nat.ne_of_lt (h.inStep.more hnot))
  refine ⟨hfresh, fun i => ?_⟩
  by_cases hkind : (outline parts).blocks[i]? = some .reasoning
  · rw [← body_of_collectGenerate h.tracks hsplice hkind]
    rw [← hkinds, List.getElem?_map] at hkind
    obtain ⟨b, hb, hkind⟩ := Option.map_eq_some_iff.mp hkind
    obtain ⟨text, metadata, native, rfl⟩ := eq_reasoning hkind
    rw [bodyAt_of_getElem? hb]
    -- the segment at the place of a reasoning block is a reasoning
    have hshape : r.content.map blind = (transcript parts).all.map Segment.shape :=
      (blind_spliceAll hsplice).trans (h.shaped hfresh).blocks
    have hat : (r.content.map blind)[i]? = some (.other (.reasoning "" [] none)) := by
      rw [List.getElem?_map, hb]
      rfl
    rw [hshape, List.getElem?_map] at hat
    obtain ⟨s, hs, hsegment⟩ := Option.map_eq_some_iff.mp hat
    cases s with
    | text => exact absurd hsegment (by simp [Segment.shape])
    | call => exact absurd hsegment (by simp [Segment.shape])
    | reasoning value =>
      rw [← h.inStep.lanes (not_not.mpr hfresh) i value hs]
      have hpart := congrArg (fun xs => xs[i]?) hparts
      rw [List.getElem?_map, List.getElem?_map, hb, hs] at hpart
      have htext : (textSaying 2 text).map (·.part) = (textSaying 2 value).map (·.part) :=
        Option.some.inj hpart
      exact (textSaying_inj htext (hsome _ (List.mem_of_getElem? hs))).symm
  · have hempty : ∀ lanes, lane (outline parts).deltas i lanes = "" := fun lanes =>
      lane_eq_empty (fun d hd hdi => absurd (hdi ▸ (wf_outline parts).placed d hd) hkind)
    unfold arrivedReasoning lateSummary earlySummary reasoningOf
    rw [hempty, hempty, hempty, hempty]
    rfl

end

theorem filterMap_parts {α : Type} {f : α → Option Saying} {xs : List α}
    (h : xs.map f = said.map some) :
    (xs.filterMap fun x => (f x).map (·.part)) = said.map (·.part) := by
  have hcompose : (xs.filterMap fun x => (f x).map (·.part))
      = (xs.map f).filterMap (Option.map (·.part)) := by
    rw [List.filterMap_map]
    rfl
  rw [hcompose, h, List.filterMap_map]
  exact List.filterMap_eq_map' ▸ rfl

/-- Whether a part says something can be read off it. -/
theorem meaningful_of_assistantPart {s : Saying} (h : assistantPart b = some s) :
    s.meaningful = decide (s.part.tag = 3 ∨ s.part.fields ≠ [[]]) := by
  have htext : ∀ {tag : ℕ} {value : String}, tag ≠ 3 → textSaying tag value = some s →
      s.meaningful = decide (s.part.tag = 3 ∨ s.part.fields ≠ [[]]) := by
    intro tag value htag hs
    rw [eq_of_counted hs]
    refine decide_eq_decide.mpr ?_
    show value ≠ "" ↔ tag = 3 ∨ [bytes value] ≠ [[]]
    rw [ne_eq, ne_eq, List.singleton_inj, bytes_eq_nil]
    exact ⟨Or.inr, fun h => h.resolve_left htag⟩
  unfold assistantPart at h
  split at h
  · split at h
    · exact absurd h (by simp)
    · exact htext (by decide) h
  · exact htext (by decide) h
  · split at h
    · exact absurd h (by simp)
    · unfold callSaying at h
      split at h
      · exact absurd h (by simp)
      · rw [eq_of_counted h]
        rfl
  · exact absurd h (by simp)

theorem map_assistantPart_inj {content content' : List Content} {said' : List Saying}
    (h : content.map assistantPart = said.map some)
    (h' : content'.map assistantPart = said'.map some)
    (hparts : said.map (·.part) = said'.map (·.part)) :
    content.map assistantPart = content'.map assistantPart := by
  have hread : ∀ {content : List Content} {said : List Saying},
      content.map assistantPart = said.map some →
        (said.map (·.part)).map (fun part : Part => ({ part, meaningful := decide (part.tag = 3
          ∨ part.fields ≠ [[]]) } : Saying)) = said := by
    intro content said h
    rw [List.map_map]
    refine (List.map_congr_left fun s hs => ?_).trans said.map_id
    have hmem : some s ∈ content.map assistantPart := h ▸ List.mem_map_of_mem hs
    obtain ⟨b, -, hb⟩ := List.mem_map.mp hmem
    show ({ part := s.part, meaningful := decide (s.part.tag = 3 ∨ s.part.fields ≠ [[]]) } : Saying)
      = s
    rw [← meaningful_of_assistantPart hb]
  rw [h, h', ← hread h, ← hread h', hparts]

theorem length_calls_step {t : Transcript} {part : StreamPart} (hfollows : t.Follows part)
    (h : t.calls.length ≤ maxStreamingCommitmentToolCalls) :
    (t.step part).calls.length ≤ maxStreamingCommitmentToolCalls := by
  have hupdate : ∀ field value, (t.updateField field value).calls = t.calls := by
    intro field value
    unfold Transcript.updateField
    split
    · split <;> rfl
    · rfl
  cases part with
  | textDelta text => exact hupdate .text text ▸ h
  | toolCallDelta id name arguments metadata =>
    obtain ⟨-, -, hname⟩ := hfollows
    show (if t.calls.any (·.id = id) then Transcript.extendCall _ id arguments
      else _ : Transcript).calls.length ≤ _
    by_cases hany : t.calls.any (·.id = id) = true
    · rw [if_pos hany]
      show (t.calls.map _).length ≤ _
      rwa [List.length_map]
    · rw [if_neg hany] at hname ⊢
      show (t.calls ++ [_]).length ≤ _
      rw [List.length_append]
      exact hname.2
  | other part =>
    cases part with
    | reasoningDelta text sourceKind => exact hupdate .reasoning text ▸ h
    | _ => exact h
  | _ => exact h

theorem length_calls_le (hfollows : Along (fun pre part => (transcript pre).Follows part) parts) :
    (transcript parts).calls.length ≤ maxStreamingCommitmentToolCalls := by
  induction parts using List.reverseRecOn with
  | nil => exact Nat.zero_le _
  | append_singleton parts part ih =>
    obtain ⟨hbefore, hpart⟩ := along_concat.mp hfollows
    rw [transcript_concat]
    exact length_calls_step hpart (ih hbefore)

theorem bounded_of_map {α : Type} {f : α → Option Saying} {xs : List α}
    (h : xs.map f = said.map some) (hf : ∀ x saying, f x = some saying → saying.part.Bounded) :
    ∀ part ∈ said.map (·.part), part.Bounded := by
  intro part hpart
  obtain ⟨saying, hsaying, rfl⟩ := List.mem_map.mp hpart
  have hmem : some saying ∈ xs.map f := h ▸ List.mem_map_of_mem hsaying
  obtain ⟨x, -, hx⟩ := List.mem_map.mp hmem
  exact hf x saying hx

theorem grouped_iff (huniform : Uniform sha256 32) (h : Follows collector parts)
    (hsplice : Collector.spliceAll collector.reasoningSummaries collector.content = .ok r.content)
    (hsaid : (transcript parts).all.map Segment.saying = said.map some)
    (hbound : said.length < 256 ^ 8) (hany : said.any (·.meaningful) = true)
    (hfree : CollisionFree sha256 (streamInputs sha256 parts r.content)) :
    assistantTurnCommitment sha256 r.content = some (commit sha256 (said.map (·.part)))
      ↔ Grouped parts := by
  constructor
  · intro hcommit
    obtain ⟨said', hsaid', -, -, hequal⟩ := assistantTurnCommitment_eq_some.mp hcommit
    have hparts : said.map (·.part) = said'.map (·.part) := by
      refine commit_inj huniform (bounded_of_map hsaid fun _ _ => bounded_of_saying)
        (bounded_of_map hsaid' fun _ _ => bounded_of_assistantPart) (hfree.mono ?_) hequal
      unfold streamInputs
      rw [filterMap_parts hsaid, filterMap_parts hsaid']
      exact List.subset_append_right _ _
    refine grouped_of_parts h hsplice ?_ (fun s hs hnone => ?_)
    · have hcontent := congrArg (List.map (Option.map (·.part))) hsaid'
      have hall := congrArg (List.map (Option.map (·.part))) hsaid
      rw [List.map_map, List.map_map] at hcontent hall
      refine hcontent.trans (Eq.trans ?_ hall.symm)
      have hlift := congrArg (List.map some) hparts
      rw [List.map_map, List.map_map] at hlift
      exact hlift.symm
    · have hmem : s.saying ∈ said.map some := hsaid ▸ List.mem_map_of_mem hs
      rw [hnone] at hmem
      exact absurd hmem (by simp)
  · intro hgrouped
    refine assistantTurnCommitment_eq_some.mpr ⟨said, ?_, hbound, hany, rfl⟩
    rw [parts_of_grouped h hsplice hgrouped, hsaid]

/-- **A streamed commitment is that of the collected content exactly where both
group the deltas alike**, and then it tells the turn from every other one.
Whatever has a streamed commitment is made of texts, reasonings and at most 64
calls, so that every other turn has none. -/
theorem streamedCommitment_faithful_iff {ε : Type} {embed : ModelError → ε}
    {sha256 : List ℕ → List ℕ} (huniform : Uniform sha256 32) {parts : List StreamPart}
    {r : Collected} {c : AssistantTurnCommitment}
    (hcollected : collectGenerate embed (parts.map .ok) = .ok r)
    (hstreamed : streamedCommitment sha256 parts = some c)
    (hfree : CollisionFree sha256 (streamInputs sha256 parts r.content)) :
    (assistantTurnCommitment sha256 r.content = some c ↔ Grouped parts)
      ∧ (Grouped parts → ∀ parts' r', collectGenerate embed (parts'.map .ok) = .ok r' →
        streamedCommitment sha256 parts' = some c →
        CollisionFree sha256
          (streamInputs sha256 parts r.content ++ streamInputs sha256 parts' r'.content) →
        (r'.content.map assistantPart = r.content.map assistantPart ↔ Grouped parts'))
      ∧ (∀ b ∈ r.content, committable b = true)
      ∧ ∃ ids : List String, ids.length ≤ maxStreamingCommitmentToolCalls
        ∧ ∀ id ∈ callIds parts, id ∈ ids := by
  obtain ⟨hfollows, said, hsaid, hbound, hany, rfl⟩ :=
    streamedCommitment_eq_some (hfree.mono (List.subset_append_left _ _)) hstreamed
  obtain ⟨collector, hcollector, hsplice⟩ := follows_of_collectGenerate hcollected hfollows
  have hiff := grouped_iff huniform hcollector hsplice hsaid hbound hany hfree
  refine ⟨hiff, fun hgrouped parts' r' hcollected' hstreamed' hboth => ?_, ?_, ?_⟩
  · have hfree' : CollisionFree sha256 (streamInputs sha256 parts' r'.content) :=
      hboth.mono (List.subset_append_right _ _)
    obtain ⟨hfollows', said', hsaid', hbound', hany', hequal⟩ :=
      streamedCommitment_eq_some (hfree'.mono (List.subset_append_left _ _)) hstreamed'
    obtain ⟨collector', hcollector', hsplice'⟩ := follows_of_collectGenerate hcollected' hfollows'
    have hiff' := grouped_iff huniform hcollector' hsplice' hsaid' hbound' hany' hfree'
    rw [← hequal] at hiff'
    have hcommit := hiff.mpr hgrouped
    constructor
    · intro hsame
      refine hiff'.mp ?_
      obtain ⟨said₀, hsaid₀, hbound₀, hany₀, hc₀⟩ := assistantTurnCommitment_eq_some.mp hcommit
      exact assistantTurnCommitment_eq_some.mpr ⟨said₀, hsame.trans hsaid₀, hbound₀, hany₀, hc₀⟩
    · intro hgrouped'
      have hshown := (parts_of_grouped hcollector hsplice hgrouped).trans hsaid
      have hshown' := (parts_of_grouped hcollector' hsplice' hgrouped').trans hsaid'
      refine map_assistantPart_inj hshown' hshown (commit_inj huniform
        (bounded_of_map hsaid' fun _ _ => bounded_of_saying)
        (bounded_of_map hsaid fun _ _ => bounded_of_saying) (hboth.mono ?_) hequal.symm)
      unfold streamInputs
      rw [filterMap_parts hsaid, filterMap_parts hsaid']
      intro x hx
      simp only [List.mem_append] at hx ⊢
      tauto
  · exact committable_of_blind hcollector.committable (blind_spliceAll hsplice)
  · refine ⟨(transcript parts).calls.map StreamedCall.id, ?_, fun id hid => ?_⟩
    · rw [List.length_map]
      exact length_calls_le hfollows
    · exact (hcollector.inStep.calls id).mp ((hcollector.tracks.called id).mpr hid)

end Commit

/-- SHA-256 at what is hashed for the streams below, by the fingerprint. -/
def streamedDigests : List (ℕ × ℕ) :=
  [(1537258040167877855,
    0x874d175daf6ca49dc002e2922f9b75abbc7cd19ff0b89d5c812b6b9b32e26fb4),
   (924739238202983117,
    0x1f23864ba3d8382d0612e84c8279ae4521553c7c4f5f73a872f65136e078f2ff),
   (904332188123329595,
    0xf8cbf0f3d39db4847cfd2fe020a5d9ec77598d7e6b4041aeb6952aaf41351dc8),
   (904332188123329600,
    0x278e5f1a0b7f8258a758bb0a599e512ba323d2d6717d032abcd65e642ff00505),
   (1156004765353827592,
    0xa8f55592501491eaee71580d465e7dc6e72bfd03679633e470b980df778fdd07),
   (904332188123329498,
    0x89a5da001b1cb4b0de610d5edacba2923a800f6f0e2537f73735e7e17386a5ac),
   (904332188123329596,
    0xd4b55491278277d3632b85e90417ee70664689526f0f1372f9312995eca5acda),
   (904332188123329601,
    0x91f92041afa20237281e090f966cfe655d33f5d2de73eb266d7a40ad03038efb),
   (924739238202979777,
    0x0245224b17cb43bd2ee0c6a76969e3f0c50e4e5ddeade748da9278674fdce68d),
   (854618052372219151,
    0xcbdd00df25b83b9a201985253a4ebf2cdcc7aff48bf51d01c0e1c093aa64153a),
   (924739238202981573,
    0x6aa118c1ad107786f61308e2865e12aaf746b67d87684b8ecd333bd6de463eba),
   (1817320479993950796,
    0xed4b8d9f574dd68fd0229d220456460cca8c24d40fb17d03e700d0e001ef4b97),
   (924739238202981318,
    0x133285c86289a13c0b004ddfa25e2c740a77835646de06477eff70f8dc5ce340),
   (371459182106737767,
    0xc87f73e8b1a1c7036f91397b04ae04b0ac1b05fb7be572654e3b8f4cbf61cfdb)]

def interleaved : List StreamPart :=
  [.other (.reasoningStart "r" none), .other (.reasoningDelta "why" (some .summary)),
    .other (.reasoningEnd "r" none none), .textDelta "hi", .toolCallDelta "a" (some "f") "[1," [],
    .toolCallDelta "b" (some "g") "[" [], .toolCallDelta "a" none "2]" [],
    .toolCallDelta "b" none "]" [], .finish .stop]

/-- What is collected of it. -/
def interleavedContent : List Content :=
  [.other (.reasoning "why" [] none), .text "hi" [], .toolCall "a" "f" "[1,2]" false false [],
    .toolCall "b" "g" "[]" false false []]

def interleavedCommitment : AssistantTurnCommitment :=
  ⟨beBytes 32 0xcbdd00df25b83b9a201985253a4ebf2cdcc7aff48bf51d01c0e1c093aa64153a⟩

theorem streamedCommitment_faithful_interleaved :
    (assistantTurnCommitment (tabulated streamedDigests) interleavedContent
        = some interleavedCommitment ↔ Grouped interleaved)
      ∧ (Grouped interleaved → ∀ parts' r',
        collectGenerate (fun e : ModelError => e) (parts'.map .ok) = .ok r' →
        streamedCommitment (tabulated streamedDigests) parts' = some interleavedCommitment →
        CollisionFree (tabulated streamedDigests)
          (streamInputs (tabulated streamedDigests) interleaved interleavedContent
            ++ streamInputs (tabulated streamedDigests) parts' r'.content) →
        (r'.content.map assistantPart = interleavedContent.map assistantPart ↔ Grouped parts'))
      ∧ (∀ b ∈ interleavedContent, committable b = true)
      ∧ ∃ ids : List String, ids.length ≤ maxStreamingCommitmentToolCalls
        ∧ ∀ id ∈ callIds interleaved, id ∈ ids := by
  have hcollected : collectGenerate (fun e : ModelError => e) (interleaved.map .ok)
      = .ok ⟨interleavedContent, none, some .stop, none⟩ := rfl
  have hstreamed : streamedCommitment (tabulated streamedDigests) interleaved
      = some interleavedCommitment := by decide +kernel
  have hfree : CollisionFree (tabulated streamedDigests)
      (streamInputs (tabulated streamedDigests) interleaved interleavedContent) := by
    unfold CollisionFree
    decide +kernel
  exact streamedCommitment_faithful_iff (uniform_tabulated _) hcollected hstreamed hfree

/-- A reasoning block whose summary arrives last. -/
def summarizedLast : List StreamPart :=
  [.other (.reasoningStart "r" none), .other (.reasoningDelta "b" (some .text)),
    .other (.reasoningDelta "a" (some .summary)), .other (.reasoningEnd "r" none none),
    .finish .stop]

/-- **A late summary is committed to where it arrived**, and collected in
front. -/
theorem summarizedLast_not_faithful :
    ∃ r c c', collectGenerate (fun e : ModelError => e) (summarizedLast.map .ok) = .ok r
      ∧ streamedCommitment (tabulated streamedDigests) summarizedLast = some c
      ∧ assistantTurnCommitment (tabulated streamedDigests) r.content = some c' ∧ c' ≠ c := by
  refine ⟨⟨[.other (.reasoning "ab" [] none)], none, some .stop, none⟩,
    commit (tabulated streamedDigests) [{ tag := 2, fields := [bytes "ba"] }],
    commit (tabulated streamedDigests) [{ tag := 2, fields := [bytes "ab"] }], rfl, ?_, ?_, ?_⟩
  · decide +kernel
  · decide +kernel
  · decide +kernel

end BitRouter.Gateway
