import BitRouter.Gateway.MessagesWire
import BitRouter.Registry.Numeral
import BitRouter.ServerTools.Aggregate

/-!
# The usage of a Messages stream

`messages.rs`: a stream states its usage in parts. `message_start` has the prompt and the
cache counters, and each `message_delta` restates some of them. The decoder holds inclusive
totals only, so it takes the uncached part of the prompt back out of them before it adds up
again. What it emits with the stop reason is what the merged usage object says.

The web searches are the exception: a `server_tool_use` that counts none replaces the one
before it in the merged object, and the decoder keeps the count it has.
-/

namespace BitRouter.Gateway

open Ai
open Registry (Value isDigits digitsValue)

/-! ## Usage objects -/

/-- A number that is a `u64`. -/
def asU64 (value : Value) : Option UInt64 :=
  value.asNumber.bind fun lexeme =>
    if isDigits lexeme.toList ∧ digitsValue lexeme.toList < 2 ^ 64 then
      some (UInt64.ofNat (digitsValue lexeme.toList))
    else none

def u64Member (value : Value) (key : String) : Option UInt64 := (value.get key).bind asU64

/-- The only count of server tools. -/
def webSearchRequests (value : Value) : Option UInt64 :=
  (value.get "server_tool_use").bind (u64Member · "web_search_requests")

def parseUsage (value : Value) : Option Usage :=
  if (value.get "input_tokens").isNone ∧ (value.get "output_tokens").isNone then none
  else
    let input := (u64Member value "input_tokens").getD 0
    let cacheRead := (u64Member value "cache_read_input_tokens").getD 0
    let cacheWrite := (u64Member value "cache_creation_input_tokens").getD 0
    some {
      promptTokens := saturatingAdd (saturatingAdd input cacheRead) cacheWrite
      completionTokens := (u64Member value "output_tokens").getD 0
      reasoningTokens := 0
      cacheReadTokens := cacheRead
      cacheWriteTokens := cacheWrite
      webSearchCount := (webSearchRequests value).getD 0
      origin := .providerReported
      raw := some value }

/-- The number a counter is written as. -/
def u64Value (n : UInt64) : Value := .number (Nat.repr n.toNat)

def RenderedUsage.toValue (u : RenderedUsage) : Value :=
  .object ([("input_tokens", u64Value u.inputTokens), ("output_tokens", u64Value u.outputTokens)]
    ++ (u.cacheReadInputTokens.map fun n => ("cache_read_input_tokens", u64Value n)).toList
    ++ (u.cacheCreationInputTokens.map fun n =>
      ("cache_creation_input_tokens", u64Value n)).toList)

/-! ## The decoder -/

def stopReasonToFinish : String → FinishReason
  | "end_turn" | "stop_sequence" => .stop
  | "max_tokens" => .length
  | "tool_use" => .toolCalls
  | "refusal" => .contentFilter
  | other => .other other

/-- What `MessagesStreamDecoder` holds of the usage. -/
structure MessagesStreamUsage where
  initialUsageRaw : Option Value := none
  usage : Usage := {}

namespace MessagesStreamUsage

def messageStart (d : MessagesStreamUsage) (json : Value) : MessagesStreamUsage :=
  match ((json.get "message").bind (·.get "usage")).bind parseUsage with
  | some parsed => ⟨parsed.raw, parsed⟩
  | none => d

/-- A usage object of a later event. -/
def refresh (d : MessagesStreamUsage) (u : Value) : MessagesStreamUsage :=
  let priorExclInput := saturatingSub (saturatingSub d.usage.promptTokens d.usage.cacheReadTokens)
    d.usage.cacheWriteTokens
  let newExclInput := (u64Member u "input_tokens").getD priorExclInput
  let cacheRead := (u64Member u "cache_read_input_tokens").getD d.usage.cacheReadTokens
  let cacheWrite := (u64Member u "cache_creation_input_tokens").getD d.usage.cacheWriteTokens
  { d with
    usage := { d.usage with
      promptTokens := saturatingAdd (saturatingAdd newExclInput cacheRead) cacheWrite
      completionTokens := (u64Member u "output_tokens").getD d.usage.completionTokens
      cacheReadTokens := cacheRead
      cacheWriteTokens := cacheWrite
      webSearchCount := (webSearchRequests u).getD d.usage.webSearchCount
      origin := .providerReported
      raw := some (.object ((d.initialUsageRaw.map ("message_start", ·)).toList
        ++ [("message_delta", u)])) } }

def messageDelta (d : MessagesStreamUsage) (json : Value) : MessagesStreamUsage × List StreamPart :=
  let d := ((json.get "usage").map d.refresh).getD d
  match ((json.get "delta").bind (·.get "stop_reason")).bind Value.asStr with
  | some reason => (d, [.usage d.usage, .finish (stopReasonToFinish reason)])
  | none => (d, [])

/-- The decoder after a start and some deltas. -/
def run (start : Value) (deltas : List Value) : MessagesStreamUsage :=
  deltas.foldl (fun d json => (d.messageDelta json).1)
    (({} : MessagesStreamUsage).messageStart start)

end MessagesStreamUsage

/-! ## Merged objects -/

def overwrite (value update : Value) : Value :=
  .object (update.members.foldr (fun field fields => IndexMap.insert fields field.1 field.2)
    value.members)

theorem get_overwrite (value update : Value) (key : String) :
    (overwrite value update).get key = (update.get key).or (value.get key) := by
  have hmembers (v : Value) : v.get key = IndexMap.get v.members key := by cases v <;> rfl
  rw [hmembers update, hmembers value]
  show IndexMap.get (List.foldr _ _ _) key = _
  induction update.members with
  | nil => rfl
  | cons field fields ih =>
    rw [List.foldr_cons, IndexMap.get_insert, IndexMap.get]
    split
    · rfl
    · exact ih

/-- The usage object of a start, with those of the deltas written over it. -/
def mergedUsage (initial : Value) (deltas : List Value) : Value :=
  deltas.foldl (fun merged json => ((json.get "usage").map (overwrite merged)).getD merged) initial

/-! ## What a stream reports -/

/-- A counter, `0` where there is none. -/
def counter (v : Value) (key : String) : ℕ := ((u64Member v key).getD 0).toNat

/-- The whole prompt of a usage object. -/
def inclusiveInput (v : Value) : ℕ :=
  counter v "input_tokens" + counter v "cache_read_input_tokens"
    + counter v "cache_creation_input_tokens"

/-- The counters a usage object has are `u64` integers. -/
structure CountersValid (v : Value) : Prop where
  token : ∀ key ∈ ["input_tokens", "output_tokens", "cache_read_input_tokens",
    "cache_creation_input_tokens"], ∀ c, v.get key = some c → (asU64 c).isSome
  webSearch : ∀ s c, v.get "server_tool_use" = some s → s.get "web_search_requests" = some c →
    (asU64 c).isSome

/-- **The usage objects of a stream**: the start has the prompt, and no sum overflows. -/
structure ReportsUsage (start : Value) (deltas : List Value) (initial : Value) : Prop where
  started : (start.get "message").bind (·.get "usage") = some initial
  input : (initial.get "input_tokens").isSome
  valid : ∀ v ∈ initial :: deltas.filterMap (·.get "usage"), CountersValid v
  fits : ∀ earlier, earlier <+: deltas → inclusiveInput (mergedUsage initial earlier) < 2 ^ 64

/-- The token counters of a usage. -/
def tokenCounters (u : Usage) : List UInt64 :=
  [u.promptTokens, u.completionTokens, u.reasoningTokens, u.cacheReadTokens, u.cacheWriteTokens]

/-- A usage agrees with a merged object. -/
structure Agrees (u : Usage) (v : Value) : Prop where
  input : (v.get "input_tokens").isSome
  prompt : u.promptTokens.toNat = inclusiveInput v
  completion : u.completionTokens = (u64Member v "output_tokens").getD 0
  reasoning : u.reasoningTokens = 0
  cacheRead : u.cacheReadTokens = (u64Member v "cache_read_input_tokens").getD 0
  cacheWrite : u.cacheWriteTokens = (u64Member v "cache_creation_input_tokens").getD 0

variable {u : Usage} {v update : Value} {start initial : Value} {deltas : List Value}

theorem saturatingAdd_inclusive {input cacheRead cacheWrite : UInt64}
    (h : input.toNat + cacheRead.toNat + cacheWrite.toNat < 2 ^ 64) :
    (saturatingAdd (saturatingAdd input cacheRead) cacheWrite).toNat
      = input.toNat + cacheRead.toNat + cacheWrite.toNat := by
  rw [ServerTools.saturatingAdd_toNat, ServerTools.saturatingAdd_toNat]
  omega

theorem saturatingSub_toNat (a b : UInt64) : (saturatingSub a b).toNat = a.toNat - b.toNat := by
  have ha := a.toNat_lt
  rw [saturatingSub, UInt64.toNat_ofNat', Nat.mod_eq_of_lt (by omega)]

theorem bind_overwrite {α : Type} (f : Value → Option α) {key : String}
    (h : ∀ c, update.get key = some c → (f c).isSome) :
    ((overwrite v update).get key).bind f
      = ((update.get key).bind f).or ((v.get key).bind f) := by
  rw [get_overwrite]
  cases hget : update.get key with
  | none => rfl
  | some c =>
    obtain ⟨n, hn⟩ := Option.isSome_iff_exists.mp (h c hget)
    simp [hn]

theorem getD_or (a b : Option UInt64) : (a.or b).getD 0 = a.getD (b.getD 0) := by
  cases a <;> rfl

/-- **The usage of a usage object agrees with it.** -/
theorem agrees_parseUsage (hinput : (v.get "input_tokens").isSome)
    (hfits : inclusiveInput v < 2 ^ 64) :
    ∃ u, parseUsage v = some u ∧ Agrees u v
      ∧ u.webSearchCount = (webSearchRequests v).getD 0 := by
  have hguard : ¬ ((v.get "input_tokens").isNone ∧ (v.get "output_tokens").isNone) := by
    rintro ⟨hnone, -⟩
    rw [Option.isNone_iff_eq_none] at hnone
    rw [hnone] at hinput
    exact absurd hinput (by decide)
  refine ⟨_, if_neg hguard, ⟨hinput, ?_, rfl, rfl, rfl, rfl⟩, rfl⟩
  exact saturatingAdd_inclusive hfits

theorem Agrees.unique {u' : Usage} (h : Agrees u v) (h' : Agrees u' v) :
    tokenCounters u = tokenCounters u' := by
  have hprompt : u.promptTokens = u'.promptTokens :=
    UInt64.toNat_inj.mp (h.prompt.trans h'.prompt.symm)
  simp only [tokenCounters, hprompt, h.completion, h.reasoning, h.cacheRead, h.cacheWrite,
    h'.completion, h'.reasoning, h'.cacheRead, h'.cacheWrite]

/-- **An update keeps the agreement**: the uncached part that is taken out of the totals is the
one the merged object has. -/
theorem Agrees.refresh {d : MessagesStreamUsage} (h : Agrees d.usage v)
    (hvalid : CountersValid update) (hfits : inclusiveInput (overwrite v update) < 2 ^ 64) :
    Agrees (d.refresh update).usage (overwrite v update) := by
  have hread (key : String) (hkey : key ∈ ["input_tokens", "output_tokens",
      "cache_read_input_tokens", "cache_creation_input_tokens"]) :
      (u64Member (overwrite v update) key).getD 0
        = (u64Member update key).getD ((u64Member v key).getD 0) := by
    rw [← getD_or]
    exact congrArg (·.getD 0) (bind_overwrite asU64 (hvalid.token key hkey))
  have hinput := hread "input_tokens" (by decide)
  have hcacheRead := hread "cache_read_input_tokens" (by decide)
  have hcacheWrite := hread "cache_creation_input_tokens" (by decide)
  -- the uncached part of the totals is what the object so far says
  have hprior : saturatingSub (saturatingSub d.usage.promptTokens d.usage.cacheReadTokens)
      d.usage.cacheWriteTokens = (u64Member v "input_tokens").getD 0 := by
    have hprompt := h.prompt
    rw [inclusiveInput, counter, counter, counter, ← h.cacheRead, ← h.cacheWrite] at hprompt
    rw [← UInt64.toNat_inj, saturatingSub_toNat, saturatingSub_toNat]
    omega
  have hprompt : inclusiveInput (overwrite v update)
      = ((u64Member update "input_tokens").getD ((u64Member v "input_tokens").getD 0)).toNat
        + ((u64Member update "cache_read_input_tokens").getD d.usage.cacheReadTokens).toNat
        + ((u64Member update "cache_creation_input_tokens").getD
          d.usage.cacheWriteTokens).toNat := by
    rw [inclusiveInput, counter, counter, counter, hinput, hcacheRead, hcacheWrite, h.cacheRead,
      h.cacheWrite]
  refine ⟨?_, ?_, ?_, h.reasoning, ?_, ?_⟩
  · rw [get_overwrite, Option.isSome_or, h.input, Bool.or_true]
  · rw [hprompt]
    rw [hprompt] at hfits
    simp only [MessagesStreamUsage.refresh, hprior]
    exact saturatingAdd_inclusive hfits
  · rw [hread "output_tokens" (by decide), ← h.completion]
    rfl
  · rw [hcacheRead, ← h.cacheRead]
    rfl
  · rw [hcacheWrite, ← h.cacheWrite]
    rfl

/-- The deltas count the web searches wherever they have an object for them. -/
def CountsSearches (deltas : List Value) : Prop :=
  ∀ v ∈ deltas.filterMap (·.get "usage"), ∀ s, v.get "server_tool_use" = some s →
    (s.get "web_search_requests").isSome

theorem webSearch_refresh {d : MessagesStreamUsage} (hvalid : CountersValid update)
    (hcounts : ∀ s, update.get "server_tool_use" = some s → (s.get "web_search_requests").isSome)
    (h : d.usage.webSearchCount = (webSearchRequests v).getD 0) :
    (d.refresh update).usage.webSearchCount = (webSearchRequests (overwrite v update)).getD 0 := by
  have hread := bind_overwrite (v := v) (u64Member · "web_search_requests") fun s hs => by
    obtain ⟨c, hc⟩ := Option.isSome_iff_exists.mp (hcounts s hs)
    rw [u64Member, hc]
    exact hvalid.webSearch s c hs hc
  rw [webSearchRequests, hread, getD_or]
  exact congrArg ((webSearchRequests update).getD ·) h

theorem MessagesStreamUsage.messageDelta_fst (d : MessagesStreamUsage) (json : Value) :
    (d.messageDelta json).1 = ((json.get "usage").map d.refresh).getD d := by
  unfold MessagesStreamUsage.messageDelta
  dsimp only
  split <;> rfl

theorem MessagesStreamUsage.run_concat (json : Value) :
    MessagesStreamUsage.run start (deltas ++ [json])
      = ((MessagesStreamUsage.run start deltas).messageDelta json).1 := by
  rw [MessagesStreamUsage.run, List.foldl_append]
  rfl

theorem mergedUsage_concat (json : Value) :
    mergedUsage initial (deltas ++ [json])
      = ((json.get "usage").map (overwrite (mergedUsage initial deltas))).getD
        (mergedUsage initial deltas) := by
  rw [mergedUsage, List.foldl_append]
  rfl

theorem ReportsUsage.earlier {json : Value} (h : ReportsUsage start (deltas ++ [json]) initial) :
    ReportsUsage start deltas initial where
  started := h.started
  input := h.input
  valid := fun v hv => h.valid v <| by
    rw [List.filterMap_append]
    exact List.mem_cons.mpr ((List.mem_cons.mp hv).imp_right (List.mem_append_left _))
  fits := fun earlier hearlier => h.fits earlier (hearlier.trans (List.prefix_append _ _))

theorem ReportsUsage.last {json : Value} (h : ReportsUsage start (deltas ++ [json]) initial)
    (hupdate : json.get "usage" = some update) : CountersValid update :=
  h.valid update (by simp [hupdate])

/-- **A run agrees with the merged object.** -/
theorem agrees_run (h : ReportsUsage start deltas initial) :
    Agrees (MessagesStreamUsage.run start deltas).usage (mergedUsage initial deltas)
      ∧ (CountsSearches deltas → (MessagesStreamUsage.run start deltas).usage.webSearchCount
        = (webSearchRequests (mergedUsage initial deltas)).getD 0) := by
  induction deltas using List.reverseRecOn with
  | nil =>
    obtain ⟨u, hu, hagrees, hweb⟩ := agrees_parseUsage h.input (h.fits [] List.nil_prefix)
    have hstart : MessagesStreamUsage.run start [] = ⟨u.raw, u⟩ := by
      show MessagesStreamUsage.messageStart {} start = _
      rw [MessagesStreamUsage.messageStart, h.started, Option.bind_some, hu]
    rw [hstart]
    exact ⟨hagrees, fun _ => hweb⟩
  | append_singleton deltas json ih =>
    obtain ⟨hagrees, hweb⟩ := ih h.earlier
    have hfits := h.fits _ (List.prefix_refl _)
    rw [MessagesStreamUsage.run_concat, MessagesStreamUsage.messageDelta_fst]
    rw [mergedUsage_concat] at hfits ⊢
    cases hupdate : json.get "usage" with
    | none => exact ⟨hagrees, fun hcounts => hweb fun v hv =>
        hcounts v (by rw [List.filterMap_append]; exact List.mem_append_left _ hv)⟩
    | some update =>
      rw [hupdate] at hfits
      refine ⟨hagrees.refresh (h.last hupdate) hfits, fun hcounts => ?_⟩
      rw [CountsSearches, List.filterMap_append] at hcounts
      exact webSearch_refresh (h.last hupdate)
        (hcounts update (List.mem_append_right _ (by simp [hupdate])))
        (hweb fun v hv => hcounts v (List.mem_append_left _ hv))

/-- The web searches that the last usage object to count them counts. -/
def latestSearches (initial : Value) (deltas : List Value) : UInt64 :=
  ((initial :: deltas.filterMap (·.get "usage")).filterMap webSearchRequests).getLast?.getD 0

theorem latestSearches_concat (json : Value) : latestSearches initial (deltas ++ [json])
    = ((json.get "usage").bind webSearchRequests).getD (latestSearches initial deltas) := by
  unfold latestSearches
  rw [List.filterMap_append, ← List.cons_append, List.filterMap_append, List.getLast?_append]
  cases hupdate : json.get "usage" with
  | none => simp [hupdate]
  | some update => cases hcount : webSearchRequests update <;> simp [hupdate, hcount]

/-- **The searches of a run** are those of the last object that counts them. -/
theorem webSearch_run (h : ReportsUsage start deltas initial) :
    (MessagesStreamUsage.run start deltas).usage.webSearchCount
      = latestSearches initial deltas := by
  induction deltas using List.reverseRecOn with
  | nil =>
    obtain ⟨u, hu, -, hweb⟩ := agrees_parseUsage h.input (h.fits [] List.nil_prefix)
    show (MessagesStreamUsage.messageStart {} start).usage.webSearchCount = _
    rw [MessagesStreamUsage.messageStart, h.started, Option.bind_some, hu]
    show u.webSearchCount = _
    rw [hweb, latestSearches]
    cases hcount : webSearchRequests initial <;> simp [hcount]
  | append_singleton deltas json ih =>
    rw [MessagesStreamUsage.run_concat, MessagesStreamUsage.messageDelta_fst,
      latestSearches_concat, ← ih h.earlier]
    cases json.get "usage" <;> rfl

/-! ## The results -/

theorem asU64_u64Value (n : UInt64) : asU64 (u64Value n) = some n := by
  have hn : digitsValue (Nat.repr n.toNat).toList = n.toNat := Registry.digitsValue_repr _
  show (if isDigits (Nat.repr n.toNat).toList ∧ digitsValue (Nat.repr n.toNat).toList < 2 ^ 64
    then some (UInt64.ofNat (digitsValue (Nat.repr n.toNat).toList)) else none) = some n
  rw [hn, if_pos ⟨Registry.isDigits_repr _, n.toNat_lt⟩, UInt64.ofNat_toNat]

/-- **A rendered usage is read back.** -/
theorem parseUsage_renderUsage
    (h : u.cacheReadTokens.toNat + u.cacheWriteTokens.toNat ≤ u.promptTokens.toNat) :
    ∃ u', parseUsage (renderUsage u).toValue = some u' ∧ u'.promptTokens = u.promptTokens
      ∧ u'.completionTokens = u.completionTokens ∧ u'.cacheReadTokens = u.cacheReadTokens
      ∧ u'.cacheWriteTokens = u.cacheWriteTokens := by
  -- a bucket that is left out is read as the zero it is
  have hbucket (n : UInt64) : ((if n > 0 then some n else none : Option UInt64)).getD 0 = n := by
    split
    · rfl
    · next hn => exact UInt64.toNat_inj.mp (Nat.le_zero.mp (not_lt.mp hn)).symm
  have hinput : u64Member (renderUsage u).toValue "input_tokens"
      = some (renderUsage u).inputTokens := asU64_u64Value _
  have houtput : u64Member (renderUsage u).toValue "output_tokens" = some u.completionTokens :=
    asU64_u64Value _
  have hcacheRead : (u64Member (renderUsage u).toValue "cache_read_input_tokens").getD 0
      = u.cacheReadTokens := by
    rw [← hbucket u.cacheReadTokens]
    unfold u64Member RenderedUsage.toValue renderUsage
    split <;> split <;> simp [Value.get, IndexMap.get, asU64_u64Value]
  have hcacheWrite : (u64Member (renderUsage u).toValue "cache_creation_input_tokens").getD 0
      = u.cacheWriteTokens := by
    rw [← hbucket u.cacheWriteTokens]
    unfold u64Member RenderedUsage.toValue renderUsage
    split <;> split <;> simp [Value.get, IndexMap.get, asU64_u64Value]
  have hexclusive : (renderUsage u).inputTokens.toNat
      = u.promptTokens.toNat - u.cacheReadTokens.toNat - u.cacheWriteTokens.toNat := by
    rw [renderUsage, saturatingSub_toNat, saturatingSub_toNat]
  have hinclusive : inclusiveInput (renderUsage u).toValue = u.promptTokens.toNat := by
    rw [inclusiveInput, counter, counter, counter, hinput, hcacheRead, hcacheWrite,
      Option.getD_some, hexclusive]
    omega
  obtain ⟨u', hu', hagrees, -⟩ := agrees_parseUsage (v := (renderUsage u).toValue) rfl
    (hinclusive ▸ u.promptTokens.toNat_lt)
  refine ⟨u', hu', ?_, ?_, hagrees.cacheRead.trans hcacheRead,
    hagrees.cacheWrite.trans hcacheWrite⟩
  · exact UInt64.toNat_inj.mp (hagrees.prompt.trans hinclusive)
  · rw [hagrees.completion, houtput]
    rfl

/-- A usage object without counters that are not numbers. -/
theorem countersValid_of (htoken : ["input_tokens", "output_tokens", "cache_read_input_tokens",
      "cache_creation_input_tokens"].all fun key =>
        ((v.get key).map (asU64 · |>.isSome)).getD true)
    (hweb : (((v.get "server_tool_use").bind (·.get "web_search_requests")).map
      (asU64 · |>.isSome)).getD true) : CountersValid v where
  token key hkey c hc := by simpa [hc] using List.all_eq_true.mp htoken key hkey
  webSearch s c hs hc := by simpa [hs, hc] using hweb

/-- A stream with one delta. -/
theorem reportsUsage_singleton (start json : Value)
    (hstarted : (start.get "message").bind (·.get "usage") = some initial)
    (hinput : (initial.get "input_tokens").isSome) (hupdate : json.get "usage" = some update)
    (hinitial : CountersValid initial) (hvalid : CountersValid update)
    (hfits : inclusiveInput initial < 2 ^ 64)
    (hfits' : inclusiveInput (overwrite initial update) < 2 ^ 64) :
    ReportsUsage start ([] ++ [json]) initial where
  started := hstarted
  input := hinput
  valid v hv := by
    have hlast : [json].filterMap (·.get "usage") = [update] := by simp [hupdate]
    rw [List.nil_append, hlast] at hv
    rcases List.mem_cons.mp hv with rfl | hv
    · exact hinitial
    · exact List.mem_singleton.mp hv ▸ hvalid
  fits earlier hearlier := by
    rcases List.prefix_concat_iff.mp hearlier with rfl | hnil
    · show inclusiveInput (((json.get "usage").map _).getD _) < _
      rw [hupdate]
      exact hfits'
    · rw [List.prefix_nil.mp hnil]
      exact hfits

/-- A start with two web searches. -/
def searchedStart : Value :=
  .object [("message", .object [("usage", .object [("input_tokens", .number "1"),
    ("server_tool_use", .object [("web_search_requests", .number "2")])])])]

/-- A last delta that has `usage` for its usage object. -/
def stoppingDelta (usage : Value) : Value :=
  .object [("usage", usage), ("delta", .object [("stop_reason", .string "end_turn")])]

/-- **What a Messages stream reports is billed as one usage object**: the usage that comes with
the stop reason has the counters of the merged object. Its web searches are those of the last
object that counts them, and so those of the merged object where every update counts them. What
is rendered of a usage is read back. -/
theorem streamed_usage_merged :
    (∀ start initial deltas json reason, ReportsUsage start (deltas ++ [json]) initial →
      ((json.get "delta").bind (·.get "stop_reason")).bind Value.asStr = some reason →
      ∃ u merged, ((MessagesStreamUsage.run start deltas).messageDelta json).2
          = [.usage u, .finish (stopReasonToFinish reason)]
        ∧ parseUsage (mergedUsage initial (deltas ++ [json])) = some merged
        ∧ tokenCounters u = tokenCounters merged
        ∧ u.webSearchCount = latestSearches initial (deltas ++ [json])
        ∧ (CountsSearches (deltas ++ [json]) → u.webSearchCount = merged.webSearchCount))
    ∧ ∀ u : Usage, u.cacheReadTokens.toNat + u.cacheWriteTokens.toNat ≤ u.promptTokens.toNat →
      ∃ u', parseUsage (renderUsage u).toValue = some u' ∧ u'.promptTokens = u.promptTokens
        ∧ u'.completionTokens = u.completionTokens ∧ u'.cacheReadTokens = u.cacheReadTokens
        ∧ u'.cacheWriteTokens = u.cacheWriteTokens := by
  refine ⟨fun start initial deltas json reason h hreason => ?_,
    fun u hu => parseUsage_renderUsage hu⟩
  obtain ⟨hagrees, hweb⟩ := agrees_run h
  obtain ⟨merged, hmerged, hagrees', hweb'⟩ :=
    agrees_parseUsage hagrees.input (h.fits _ (List.prefix_refl _))
  refine ⟨_, merged, ?_, hmerged, hagrees.unique hagrees', webSearch_run h,
    fun hcounts => (hweb hcounts).trans hweb'.symm⟩
  rw [MessagesStreamUsage.run_concat, MessagesStreamUsage.messageDelta_fst]
  unfold MessagesStreamUsage.messageDelta
  dsimp only
  rw [hreason]

theorem streamed_usage_merged_cached :
    (∃ u merged, ((MessagesStreamUsage.run searchedStart []).messageDelta
        (stoppingDelta (.object [("cache_read_input_tokens", .number "3")]))).2
          = [.usage u, .finish .stop]
      ∧ parseUsage (mergedUsage (.object [("input_tokens", .number "1"),
          ("server_tool_use", .object [("web_search_requests", .number "2")])])
          [stoppingDelta (.object [("cache_read_input_tokens", .number "3")])]) = some merged
      ∧ tokenCounters u = tokenCounters merged ∧ u.webSearchCount = 2)
    ∧ ∃ u', parseUsage (renderUsage { promptTokens := 5, cacheReadTokens := 3 }).toValue = some u'
      ∧ u'.promptTokens = 5 ∧ u'.completionTokens = 0 ∧ u'.cacheReadTokens = 3
      ∧ u'.cacheWriteTokens = 0 := by
  have hreports := reportsUsage_singleton searchedStart
    (stoppingDelta (.object [("cache_read_input_tokens", .number "3")])) rfl rfl rfl
    (countersValid_of (by decide) (by decide)) (countersValid_of (by decide) (by decide))
    (by decide) (by decide)
  obtain ⟨u, merged, hparts, hmerged, hcounters, hsearches, -⟩ :=
    streamed_usage_merged.1 _ _ _ _ "end_turn" hreports rfl
  exact ⟨⟨u, merged, hparts, hmerged, hcounters, hsearches.trans (by decide)⟩,
    streamed_usage_merged.2 _ (by decide)⟩

/-- **The count of web searches is not always the merged one**: an object that counts none is
written over the start's, and the decoder keeps the start's count. -/
theorem webSearches_not_merged :
    ¬ ∀ start initial deltas json reason, ReportsUsage start (deltas ++ [json]) initial →
      ((json.get "delta").bind (·.get "stop_reason")).bind Value.asStr = some reason →
      ∃ u merged, ((MessagesStreamUsage.run start deltas).messageDelta json).2
          = [.usage u, .finish (stopReasonToFinish reason)]
        ∧ parseUsage (mergedUsage initial (deltas ++ [json])) = some merged
        ∧ tokenCounters u = tokenCounters merged ∧ u.webSearchCount = merged.webSearchCount := by
  intro h
  have hreports : ReportsUsage searchedStart ([] ++ [stoppingDelta (.object
      [("server_tool_use", .object [])])]) ((((searchedStart.get "message").bind
        (·.get "usage"))).getD .null) :=
    reportsUsage_singleton _ _ rfl rfl rfl (countersValid_of (by decide) (by decide))
      (countersValid_of (by decide) (by decide)) (by decide) (by decide)
  obtain ⟨u, merged, hparts, hmerged, -, hweb⟩ := h _ _ _ _ "end_turn" hreports rfl
  have hkept : u.webSearchCount = 2 := by
    rw [← (StreamPart.usage.inj (List.cons.inj hparts).1)]
    decide
  rw [← Option.some.inj hmerged] at hweb
  exact absurd (hkept.symm.trans hweb) (by decide)

end BitRouter.Gateway
