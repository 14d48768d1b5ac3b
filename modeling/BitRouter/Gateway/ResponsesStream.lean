import BitRouter.Data.Run
import BitRouter.Gateway.ResponsesClient

/-!
# What the client of the Responses wire is told

Every stream of the encoder is well formed: the numbers and the indices
ascend, one item is open at a time, every delta names it and every event that
ends something repeats what was sent (`responses_run`). A call, however, gets
the fragments that arrive while its item is open, whatever their ids: the items
hold the calls of the stream exactly as long as no item is opened between a
call and its fragments (`responsesStream_tells_iff`).
-/

namespace BitRouter.Gateway

open Ai

/-! ## Whole runs -/

/-- The client between two parts. -/
def between (e : ResponsesStreamEncoder) (closed : List OutputItem) (opened : Option OpenItem) :
    ResponsesReader where
  seq := e.seq
  phase := if e.created then .streaming else .fresh
  closed := closed
  opened := opened

section Runs

variable {uuid : ℕ → String} {e : ResponsesStreamEncoder} {parts : List StreamPart}
  {part : StreamPart} {out next : ResponsesEncoding} {closed : List OutputItem}
  {opened : Option OpenItem} {r r' : ResponsesReader}

theorem responsesEncodeAll_concat {out' : ResponsesEncoding}
    (h : e.encodeAll uuid (parts ++ [part]) = .ok out') :
    ∃ out next, e.encodeAll uuid parts = .ok out ∧ out.encoder.encode uuid part = .ok next
      ∧ out'.encoder = next.encoder ∧ out'.frames = out.frames ++ next.frames := by
  unfold ResponsesStreamEncoder.encodeAll at h
  rw [List.foldlM_append] at h
  obtain ⟨out, hout, h⟩ := bind_eq_ok.mp h
  obtain ⟨last, hlast, h⟩ := bind_eq_ok.mp h
  obtain rfl := pure_eq_ok.mp h
  obtain ⟨next, hnext, hlast⟩ := bind_eq_ok.mp hlast
  obtain rfl := pure_eq_ok.mp hlast
  exact ⟨out, next, hout, hnext, rfl, rfl⟩

/-- The first two events come before everything else. -/
theorem ResponsesSynced.ensureCreated (h : ResponsesSynced e closed opened)
    (hok : ResponsesEncoding.ensureCreated { encoder := e } = .ok out) :
    ResponsesLive (between e closed opened) out closed opened := by
  unfold ResponsesEncoding.ensureCreated at hok
  unfold between
  cases hcreated : e.created with
  | true =>
    rw [show ({ encoder := e } : ResponsesEncoding).encoder.created = true from hcreated,
      if_pos rfl] at hok
    obtain rfl := Except.ok.inj hok
    exact ⟨rfl, h, hcreated⟩
  | false =>
    rw [show ({ encoder := e } : ResponsesEncoding).encoder.created = false from hcreated,
      if_neg (by simp)] at hok
    cases hid : e.responseId with
    | error error => rw [hid] at hok; exact absurd hok (by simp)
    | ok responseId =>
      rw [hid] at hok
      obtain rfl := Except.ok.inj hok
      refine ⟨?_, ⟨h.index, h.open_, h.native⟩, rfl⟩
      simp [ResponsesReads, ResponsesEncoding.ev, ResponsesReader.readAll, ResponsesReader.read,
        ResponsesReader.receive, reading]

/-- **One part**, read by the client. -/
theorem ResponsesSynced.encode (h : ResponsesSynced e closed opened)
    (hpart : part.isTerminal = false) (hok : e.encode uuid part = .ok next) :
    ∃ closed' opened', ResponsesSynced next.encoder closed' opened'
      ∧ (between e closed opened).readAll next.frames = some (between next.encoder closed' opened')
      ∧ (FindsCall (itemTrack closed opened) part →
        itemTrack closed' opened' = (itemTrack closed opened).advance opensItem part) := by
  obtain ⟨_, -, hok⟩ := bind_eq_ok.mp hok
  obtain ⟨out, hout, hok⟩ := bind_eq_ok.mp hok
  have hlive := h.ensureCreated hout
  obtain ⟨closed', opened', h', htrack⟩ := hlive.encodePart hpart hok
  refine ⟨closed', opened', h'.synced, ?_, htrack⟩
  rw [h'.reads]
  unfold between
  rw [h'.created]
  rfl

theorem ResponsesReader.done_of_readAll {frames : List ResponsesFrame} {call : StreamedCall}
    (h : r.readAll frames = some r') (hcall : call ∈ r.track.done) : call ∈ r'.track.done := by
  obtain ⟨item, hitem, hcall⟩ := List.mem_filterMap.mp hcall
  exact List.mem_filterMap.mpr ⟨item, foldlM_preserves (P := fun r => item ∈ r.closed)
    (fun _ _ _ hitem hread => closed_of_read hread hitem) frames hitem h, hcall⟩

theorem Tracked.findsCall {t : CallTrack} (h : Tracked opensItem parts t)
    (hcarries : CarriesCall opensItem parts part) : FindsCall t part := by
  cases part with
  | toolCallDelta id name arguments metadata =>
    intro hname harguments
    obtain ⟨call, hrunning, -⟩ := h.exists_running (hcarries hname harguments)
    rw [hrunning]
    rfl
  | _ => trivial

variable {responseId : Except ModelError String} {model : String}

/-- **Every run is read**: a client finds nothing amiss in the frames. If they
carry their fragments, it is told the calls; and if nothing it was told is
missing a fragment, they do. -/
theorem responses_run {all : List StreamPart} (hbody : ∀ part ∈ parts, part.isTerminal = false)
    (hcalls : Introduced parts)
    (hok : ResponsesStreamEncoder.encodeAll uuid { responseId, model } parts = .ok out) :
    ∃ closed opened, ResponsesSynced out.encoder closed opened
      ∧ ({} : ResponsesReader).readAll out.frames = some (between out.encoder closed opened)
      ∧ (Along (CarriesCall opensItem) parts → Tracked opensItem parts (itemTrack closed opened))
      ∧ (parts <+: all → (∀ call ∈ (itemTrack closed opened).done,
          call.arguments = argumentsOf call.id all) → Along (CarriesCall opensItem) parts) := by
  induction parts using List.reverseRecOn generalizing out with
  | nil =>
    obtain rfl := pure_eq_ok.mp hok
    exact ⟨[], none, ⟨rfl, .idle, rfl⟩, rfl, fun _ => Tracked.initial, fun _ _ => along_nil⟩
  | append_singleton parts part ih =>
    obtain ⟨mid, next, hmid, hnext, hencoder, hframes⟩ := responsesEncodeAll_concat hok
    obtain ⟨closed, opened, hsynced, hread, htracked, hcarried⟩ :=
      ih (fun y hy => hbody y (List.mem_append_left _ hy)) hcalls.of_concat hmid
    obtain ⟨closed', opened', hsynced', hread', hadvance⟩ :=
      hsynced.encode (hbody part (by simp)) hnext
    rw [hencoder]
    refine ⟨closed', opened', hsynced', ?_, fun halong => ?_, fun hall hfinal => ?_⟩
    · rw [hframes, ResponsesReader.readAll_append, hread]
      exact hread'
    · obtain ⟨halong, hlast⟩ := along_concat.mp halong
      have htracked := htracked halong
      rw [hadvance (htracked.findsCall hlast)]
      exact htracked.step hcalls (fun _ _ _ _ => rfl) hlast
    · have hfinal₁ : ∀ call ∈ (itemTrack closed opened).done,
          call.arguments = argumentsOf call.id all :=
        fun call hcall => hfinal call (ResponsesReader.done_of_readAll hread' hcall)
      have halong := hcarried ((List.prefix_append _ _).trans hall) hfinal₁
      obtain ⟨post, rfl⟩ := hall
      rw [List.append_assoc, List.singleton_append] at hfinal₁
      exact along_concat.mpr ⟨halong, (htracked halong).carries hcalls hfinal₁⟩

end Runs

/-! ## The end of a stream -/

/-- **The calls of a well-formed stream** have the fragments of their ids. -/
def TellsResponses (parts : List StreamPart) (frames : List ResponsesFrame) : Prop :=
  ∃ r, ({} : ResponsesReader).readAll frames = some r ∧ r.phase = .done
    ∧ ∀ call ∈ r.track.done, call.arguments = argumentsOf call.id parts

section Terminal

variable {uuid : ℕ → String} {r₀ : ResponsesReader} {out next : ResponsesEncoding}
  {e : ResponsesStreamEncoder} {last : StreamPart} {closed : List OutputItem}
  {opened : Option OpenItem}

theorem ResponsesLive.terminal {status : String} {usage : Option Usage}
    (h : ResponsesLive r₀ out closed opened) (hok : out.terminal status usage = .ok next) :
    ∃ r, r₀.readAll next.frames = some r ∧ r.phase = .done
      ∧ r.track = (itemTrack closed opened).settle := by
  unfold ResponsesEncoding.terminal at hok
  cases hid : out.encoder.responseId with
  | error error => rw [hid] at hok; exact absurd hok (by simp)
  | ok responseId =>
    rw [hid] at hok
    obtain rfl := Except.ok.inj hok
    exact h.emitTerminal status responseId usage

theorem ResponsesSynced.encode_terminal (h : ResponsesSynced e closed opened)
    (hend : last.isTerminal = true) (hok : e.encode uuid last = .ok next) :
    ∃ r, (between e closed opened).readAll next.frames = some r ∧ r.phase = .done
      ∧ r.track = (itemTrack closed opened).settle := by
  obtain ⟨_, -, hok⟩ := bind_eq_ok.mp hok
  obtain ⟨out, hout, hok⟩ := bind_eq_ok.mp hok
  have hlive := h.ensureCreated hout
  have hpending : ∀ usage, ResponsesLive (between e closed opened) { out with
      encoder := { out.encoder with pendingUsage := usage } } closed opened := fun _ =>
    ⟨hlive.reads, ⟨hlive.synced.index, hlive.synced.open_, hlive.synced.native⟩, hlive.created⟩
  cases last with
  | finish reason => exact (hpending none).terminal hok
  | responseCompleted completion usage =>
    exact (hpending (if usage.isSome then out.encoder.pendingUsage else none)).terminal hok
  | _ => exact absurd hend Bool.false_ne_true

/-- A terminal has nothing to carry. -/
theorem along_carriesCall_terminal {closes : StreamPart → Bool} {body : List StreamPart}
    (hend : last.isTerminal = true) :
    Along (CarriesCall closes) (body ++ [last]) ↔ Along (CarriesCall closes) body := by
  have hlast : CarriesCall closes body last := by
    cases last with
    | finish reason => trivial
    | responseCompleted completion usage => trivial
    | _ => exact absurd hend Bool.false_ne_true
  rw [along_concat]
  exact and_iff_left hlast

/-- It ends no call either. -/
theorem argumentsOf_terminal {body : List StreamPart} (hend : last.isTerminal = true)
    (id : String) : argumentsOf id (body ++ [last]) = argumentsOf id body := by
  have hnone : fragment id last = none := by
    cases last with
    | finish reason => rfl
    | responseCompleted completion usage => rfl
    | _ => exact absurd hend Bool.false_ne_true
  rw [argumentsOf_append, argumentsOf_singleton, hnone]
  exact String.append_empty

end Terminal

/-- **The client of a stream** is told every call with its own fragments
exactly when each of them arrives while the item of its call is open. -/
theorem responsesStream_tells_iff {uuid : ℕ → String} {responseId : Except ModelError String}
    {model : String} {parts : List StreamPart} {out : ResponsesEncoding} (hends : EndsOnce parts)
    (hcalls : Introduced parts)
    (hok : ResponsesStreamEncoder.encodeAll uuid { responseId, model } parts = .ok out) :
    TellsResponses parts out.frames ↔ Along (CarriesCall opensItem) parts := by
  obtain ⟨body, last, rfl, hend, hbody⟩ := hends
  obtain ⟨mid, next, hmid, hnext, -, hframes⟩ := responsesEncodeAll_concat hok
  obtain ⟨closed, opened, hsynced, hread, htracked, hcarried⟩ :=
    @responses_run _ _ _ _ _ body hbody hcalls.of_concat hmid
  obtain ⟨r, hread', hdone, htrack⟩ := hsynced.encode_terminal hend hnext
  have hall : ({} : ResponsesReader).readAll out.frames = some r := by
    rw [hframes, ResponsesReader.readAll_append, hread]
    exact hread'
  have htells : TellsResponses (body ++ [last]) out.frames ↔ ∀ call ∈ (itemTrack closed opened).all,
      call.arguments = argumentsOf call.id body := by
    have hcallsEq : r.track.done = (itemTrack closed opened).all := congrArg CallTrack.done htrack
    rw [← hcallsEq]
    refine ⟨fun ⟨r', hr', _, h⟩ call hcall => ?_, fun h => ⟨r, hall, hdone, fun call hcall => ?_⟩⟩
    · obtain rfl := Option.some.inj (hall.symm.trans hr')
      exact (h call hcall).trans (argumentsOf_terminal hend call.id)
    · exact (h call hcall).trans (argumentsOf_terminal hend call.id).symm
  rw [htells, along_carriesCall_terminal hend]
  constructor
  · exact fun h => hcarried (List.prefix_refl _) fun call hcall =>
      h call (List.mem_append_left _ hcall)
  · intro halong call hcall
    rw [(htracked halong).calls] at hcall
    exact arguments_of_mem_calls hcall

/-! ## Two streams -/

def encodeResponses (parts : List StreamPart) : Except EncoderError ResponsesEncoding :=
  ResponsesStreamEncoder.encodeAll (fun n => toString n) { responseId := .ok "r", model := "m" }
    parts

/-- A reply whose calls come one after the other is told. -/
theorem responsesStream_tells_sequential : ∃ out,
    encodeResponses sequentialReply = .ok out ∧ TellsResponses sequentialReply out.frames := by
  have hok : (encodeResponses sequentialReply).isOk = true := by decide +kernel
  obtain ⟨out, hout⟩ := exists_ok_of_isOk hok
  have hends : EndsOnce sequentialReply :=
    ⟨sequentialReply.dropLast, .finish .toolCalls, rfl, rfl, by decide⟩
  exact ⟨out, hout, (responsesStream_tells_iff hends (by decide +kernel) hout).mpr
    (by decide +kernel)⟩

/-- **Parallel calls are mixed up**: the item of the second holds the
fragments of both, and that of the first none. -/
theorem parallelReply_items_mixed : EndsOnce parallelReply ∧ Introduced parallelReply ∧ ∃ out,
    encodeResponses parallelReply = .ok out
      ∧ (({} : ResponsesReader).readAll out.frames).map (·.track.done)
        = some [⟨"call_1", "weather", ""⟩, ⟨"call_2", "time", "[1][2]"⟩]
      ∧ ¬ TellsResponses parallelReply out.frames := by
  have hmixed : (encodeResponses parallelReply).toOption.bind (fun out =>
      (({} : ResponsesReader).readAll out.frames).map (·.track.done))
        = some [⟨"call_1", "weather", ""⟩, ⟨"call_2", "time", "[1][2]"⟩] := by
    decide +kernel
  obtain ⟨out, hout⟩ := exists_ok_of_isOk
    (show (encodeResponses parallelReply).isOk = true by decide +kernel)
  rw [hout] at hmixed
  have hmixed : (({} : ResponsesReader).readAll out.frames).map (·.track.done)
      = some [⟨"call_1", "weather", ""⟩, ⟨"call_2", "time", "[1][2]"⟩] := hmixed
  refine ⟨⟨parallelReply.dropLast, .finish .toolCalls, rfl, rfl, by decide⟩, by decide +kernel, out,
    hout, hmixed, ?_⟩
  rintro ⟨r, hread, -, htold⟩
  rw [hread] at hmixed
  have hcall : (⟨"call_1", "weather", ""⟩ : StreamedCall) ∈ r.track.done := by
    rw [show r.track.done = _ from Option.some.inj hmixed]
    exact List.mem_cons_self
  exact absurd (htold _ hcall) (by decide +kernel)

end BitRouter.Gateway
