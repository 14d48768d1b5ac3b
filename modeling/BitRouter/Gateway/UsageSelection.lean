import BitRouter.Ai.Types
import Mathlib.Algebra.Order.Ring.Rat

/-!
# The usage of a streamed response

Usage frames of a provider are cumulative: each restates the totals so far. When
the route has pricing and every frame can be priced, the accumulator answers
with the dearest one, the latest among equals; otherwise with the last. One frame
without a price, anywhere, decides for the second rule, since the winner that is
kept tells nothing about it.

The processor holds the usage frames back. Before a `Finish` it hands the hooks
the one frame selected; a Responses completion carries its usage itself, and no
frame is put before it (`completion_carries`).
-/

namespace BitRouter.Gateway

open Ai

/-- What the accumulator knows of a stream: the last snapshot, the dearest priced
one with its cost, and whether every snapshot so far had a cost. -/
structure UsageAccumulator (Pricing : Type) where
  usage : Usage := {}
  seen : Bool := false
  pricing : Option Pricing := none
  pricedWinner : Option (ℚ × Usage) := none
  everySnapshotPriced : Bool := false
  deltaChars : UInt64 := 0
  promptChars : UInt64 := 0

/-- The usage a part carries. -/
def snapshot : StreamPart → Option Usage
  | .usage u => some u
  | .responseCompleted _ u => u
  | _ => none

variable {Pricing Context : Type} (nominalCost : Pricing → Usage → Option ℚ)

def costUnder (pricing : Option Pricing) (u : Usage) : Option ℚ :=
  pricing.bind (nominalCost · u)

namespace UsageAccumulator

def withPromptChars (promptChars : UInt64) : UsageAccumulator Pricing :=
  { promptChars := promptChars, everySnapshotPriced := true }

def setPricing (a : UsageAccumulator Pricing) (pricing : Option Pricing) :
    UsageAccumulator Pricing :=
  { a with
    pricing := pricing
    everySnapshotPriced := if a.seen then a.everySnapshotPriced else true }

/-- The winner after a snapshot of a known cost. -/
def challenge (winner : Option (ℚ × Usage)) (cost : ℚ) (u : Usage) : Option (ℚ × Usage) :=
  if winner.all (fun w => w.1 ≤ cost) then some (cost, u) else winner

theorem challenge_ne_none (winner : Option (ℚ × Usage)) (cost : ℚ) (u : Usage) :
    challenge winner cost u ≠ none := by
  unfold challenge
  split
  · simp
  · intro hn
    simp_all

/-- Take up a cumulative snapshot. -/
def take (a : UsageAccumulator Pricing) (u : Usage) : UsageAccumulator Pricing :=
  match costUnder nominalCost a.pricing u with
  | some cost =>
    { a with usage := u, seen := true, pricedWinner := challenge a.pricedWinner cost u }
  | none => { a with usage := u, seen := true, everySnapshotPriced := false }

/-- Observe one upstream part. -/
def observe (a : UsageAccumulator Pricing) : StreamPart → UsageAccumulator Pricing
  | .usage u => a.take nominalCost u
  | .responseCompleted _ (some u) => a.take nominalCost u
  | .textDelta text =>
    { a with deltaChars := saturatingAdd a.deltaChars (UInt64.ofNat text.length) }
  | .other (.reasoningDelta text _) =>
    { a with deltaChars := saturatingAdd a.deltaChars (UInt64.ofNat text.length) }
  | _ => a

/-- The usage of the stream, if a snapshot was seen. -/
def finalized (a : UsageAccumulator Pricing) : Option Usage :=
  if a.seen then
    if a.pricing.isSome && a.everySnapshotPriced then
      some ((a.pricedWinner.map Prod.snd).getD a.usage)
    else some a.usage
  else none

end UsageAccumulator

/-! ## The processor -/

inductive StreamAction
  | pass
  | replace (parts : List StreamPart)
  | drop
  | abort (error : BitrouterError)

structure StreamHook (Context : Type) where
  interest : StreamPart → Bool
  onPart : Context → StreamPart → Context × StreamAction

/-- Run one hook over the parts the hook before it left. -/
def StreamHook.run (h : StreamHook Context) :
    Context → List StreamPart → Context × Except BitrouterError (List StreamPart)
  | c, [] => (c, .ok [])
  | c, p :: ps =>
    if h.interest p then
      let (c', action) := h.onPart c p
      match action with
      | .pass => let r := h.run c' ps; (r.1, r.2.map (p :: ·))
      | .replace parts => let r := h.run c' ps; (r.1, r.2.map (parts ++ ·))
      | .drop => h.run c' ps
      | .abort error => (c', .error error)
    else let r := h.run c ps; (r.1, r.2.map (p :: ·))

/-- Run the hooks in the order they are registered in. -/
def runHooks :
    List (StreamHook Context) → Context → List StreamPart →
      Context × Except BitrouterError (List StreamPart)
  | [], c, ps => (c, .ok ps)
  | h :: hs, c, ps =>
    match h.run c ps with
    | (c', .ok ps') => runHooks hs c' ps'
    | (c', .error error) => (c', .error error)

/-- The stream's context: the accumulator, and what else the hooks see. -/
structure StreamContext (Pricing Context : Type) where
  accumulatedUsage : UsageAccumulator Pricing
  rest : Context

/-- The parts handed to the hooks for one upstream part: `finalized` is what the
accumulator answers once it has observed that part. -/
def normalized (finalized : Option Usage) : StreamPart → List StreamPart
  | .usage _ => []
  | .finish reason => (finalized.map StreamPart.usage).toList ++ [.finish reason]
  | .responseCompleted completion _ => [.responseCompleted completion finalized]
  | part => [part]

/-- Run one upstream part through the hooks. -/
def processPart (hooks : List (StreamHook Context)) (s : StreamContext Pricing Context)
    (part : StreamPart) :
    StreamContext Pricing Context × Except BitrouterError (List StreamPart) :=
  let acc := s.accumulatedUsage.observe nominalCost part
  let (rest, emitted) := runHooks hooks s.rest (normalized acc.finalized part)
  ({ accumulatedUsage := acc, rest := rest }, emitted)

def processAll (hooks : List (StreamHook Context)) :
    StreamContext Pricing Context → List StreamPart →
      StreamContext Pricing Context × Except BitrouterError (List StreamPart)
  | s, [] => (s, .ok [])
  | s, part :: parts =>
    match processPart nominalCost hooks s part with
    | (s', .ok emitted) =>
      let r := processAll hooks s' parts
      (r.1, r.2.map (emitted ++ ·))
    | (s', .error error) => (s', .error error)

/-! ## What is selected -/

/-- `u` is the last among the snapshots of maximal cost. -/
def LastDearest (cost : Usage → Option ℚ) (snaps : List Usage) (u : Usage) : Prop :=
  ∃ pre post c, snaps = pre ++ u :: post ∧ cost u = some c
    ∧ (∀ v ∈ pre, ∀ d, cost v = some d → d ≤ c) ∧ ∀ v ∈ post, ∀ d, cost v = some d → d < c

theorem LastDearest.beaten {cost : Usage → Option ℚ} {snaps : List Usage} {w u : Usage}
    {c d : ℚ} (h : LastDearest cost snaps w) (hw : cost w = some c) (hu : cost u = some d)
    (hle : c ≤ d) : LastDearest cost (snaps ++ [u]) u := by
  obtain ⟨pre, post, c', rfl, hc', hpre, hpost⟩ := h
  obtain rfl : c' = c := Option.some.inj (hc'.symm.trans hw)
  refine ⟨pre ++ w :: post, [], d, by simp, hu, fun v hv e he => ?_, by simp⟩
  rcases List.mem_append.mp hv with hv | hv
  · exact (hpre v hv e he).trans hle
  · rcases List.mem_cons.mp hv with rfl | hv
    · exact (Option.some.inj (he.symm.trans hw)).le.trans hle
    · exact (hpost v hv e he).le.trans hle

theorem LastDearest.stands {cost : Usage → Option ℚ} {snaps : List Usage} {w u : Usage} {c : ℚ}
    (h : LastDearest cost snaps w) (hw : cost w = some c)
    (hu : ∀ d, cost u = some d → d < c) : LastDearest cost (snaps ++ [u]) w := by
  obtain ⟨pre, post, c', rfl, hc', hpre, hpost⟩ := h
  obtain rfl : c' = c := Option.some.inj (hc'.symm.trans hw)
  refine ⟨pre, post ++ [u], c', by simp, hw, hpre, fun v hv => ?_⟩
  rcases List.mem_append.mp hv with hv | hv
  · exact hpost v hv
  · obtain rfl := List.mem_singleton.mp hv
    exact hu

namespace UsageAccumulator

theorem take_deltaChars (a : UsageAccumulator Pricing) (n : UInt64) (u : Usage) :
    take nominalCost { a with deltaChars := n } u
      = { a.take nominalCost u with deltaChars := n } := by
  simp only [take]
  cases costUnder nominalCost a.pricing u <;> rfl

/-- A part counts by the snapshot it carries; of any other only the length of its text
is kept. -/
theorem observe_eq (a : UsageAccumulator Pricing) (part : StreamPart) :
    ∃ n, a.observe nominalCost part
      = { (snapshot part).elim a (a.take nominalCost ·) with deltaChars := n } := by
  cases part with
  | responseCompleted k u => cases u <;> exact ⟨_, rfl⟩
  | other p => cases p <;> exact ⟨_, rfl⟩
  | _ => exact ⟨_, rfl⟩

/-- **Only the snapshots count.** -/
theorem foldl_observe (a : UsageAccumulator Pricing) (parts : List StreamPart) :
    ∃ n, parts.foldl (fun a part => a.observe nominalCost part) a
      = { (parts.filterMap snapshot).foldl (fun a u => a.take nominalCost u) a with
          deltaChars := n } := by
  suffices h : ∀ m, ∃ n, parts.foldl (fun a part => a.observe nominalCost part)
      { a with deltaChars := m }
      = { (parts.filterMap snapshot).foldl (fun a u => a.take nominalCost u) a with
          deltaChars := n } from h a.deltaChars
  induction parts generalizing a with
  | nil => exact fun m => ⟨m, rfl⟩
  | cons part parts ih =>
    intro m
    obtain ⟨n, hn⟩ := observe_eq nominalCost { a with deltaChars := m } part
    cases hs : snapshot part with
    | none =>
      simp only [List.foldl_cons, hn, hs, Option.elim_none, List.filterMap_cons_none hs]
      exact ih a n
    | some u =>
      simp only [List.foldl_cons, hn, hs, Option.elim_some, List.filterMap_cons_some hs,
        take_deltaChars]
      exact ih _ n

structure Holds (pricing : Option Pricing) (snaps : List Usage) (a : UsageAccumulator Pricing) :
    Prop where
  route : a.pricing = pricing
  seen : a.seen = !snaps.isEmpty
  usage : ∀ u ∈ snaps.getLast?, a.usage = u
  priced : a.everySnapshotPriced = snaps.all fun u => (costUnder nominalCost pricing u).isSome
  winner : ∀ c u, a.pricedWinner = some (c, u) → costUnder nominalCost pricing u = some c
    ∧ LastDearest (costUnder nominalCost pricing) snaps u
  unpriced : a.pricedWinner = none → ∀ u ∈ snaps, costUnder nominalCost pricing u = none

variable {nominalCost} {pricing : Option Pricing} {snaps : List Usage}
  {a : UsageAccumulator Pricing}

theorem Holds.take (h : Holds nominalCost pricing snaps a) (u : Usage) :
    Holds nominalCost pricing (snaps ++ [u]) (a.take nominalCost u) := by
  obtain ⟨rfl, hseen, husage, hpriced, hwinner, hunpriced⟩ := h
  cases hu : costUnder nominalCost a.pricing u with
  | none =>
    have ht : a.take nominalCost u
        = { a with usage := u, seen := true, everySnapshotPriced := false } := by
      simp [UsageAccumulator.take, hu]
    rw [ht]
    refine ⟨rfl, by simp, by simp, by simp [hu], fun c w hw => ?_, fun hn v hv => ?_⟩
    · obtain ⟨hc, hd⟩ := hwinner c w hw
      exact ⟨hc, hd.stands hc (by simp [hu])⟩
    · rcases List.mem_append.mp hv with hv | hv
      · exact hunpriced hn v hv
      · rw [List.mem_singleton.mp hv]; exact hu
  | some d =>
    have ht : a.take nominalCost u
        = { a with usage := u, seen := true, pricedWinner := challenge a.pricedWinner d u } := by
      simp [UsageAccumulator.take, hu]
    rw [ht]
    refine ⟨rfl, by simp, by simp, by simp [hpriced, hu], fun c w hw => ?_, fun hn => ?_⟩
    · cases hold : a.pricedWinner with
      | none =>
        obtain ⟨rfl, rfl⟩ : d = c ∧ u = w := by simpa [challenge, hold] using hw
        exact ⟨hu, snaps, [], d, rfl, hu, fun v hv e he => by
          simp [hunpriced hold v hv] at he, by simp⟩
      | some old =>
        obtain ⟨e, x⟩ := old
        obtain ⟨he, hx⟩ := hwinner e x hold
        by_cases hle : e ≤ d
        · obtain ⟨rfl, rfl⟩ : d = c ∧ u = w := by simpa [challenge, hold, hle] using hw
          exact ⟨hu, hx.beaten he hu hle⟩
        · obtain ⟨rfl, rfl⟩ : e = c ∧ x = w := by simpa [challenge, hold, hle] using hw
          refine ⟨he, hx.stands he fun d' hd' => ?_⟩
          rw [← Option.some.inj (hu.symm.trans hd')]
          exact not_le.mp hle
    · exact absurd hn (challenge_ne_none _ _ _)

/-- Any number of snapshots more. -/
theorem Holds.takeAll (h : Holds nominalCost pricing snaps a) (us : List Usage) :
    Holds nominalCost pricing (snaps ++ us) (us.foldl (fun a u => a.take nominalCost u) a) := by
  induction us generalizing snaps a with
  | nil => simpa using h
  | cons u us ih =>
    rw [List.append_cons]
    exact ih (h.take u)

theorem holds_start (pricing : Option Pricing) (a : UsageAccumulator Pricing)
    (hs : a.seen = false) (hw : a.pricedWinner = none) :
    Holds nominalCost pricing [] (a.setPricing pricing) :=
  ⟨rfl, by simp [setPricing, hs], by simp, by simp [setPricing, hs], by simp [setPricing, hw],
    by simp⟩

section

variable (h : Holds nominalCost pricing snaps a)

include h

theorem Holds.finalized_eq_none :
    a.finalized = none ↔ snaps = [] := by
  unfold finalized
  rw [h.seen]
  cases snaps <;> simp
  split <;> simp

/-- **The dearest**, when all can be priced. -/
theorem Holds.finalized_dearest (hp : ∀ u ∈ snaps, (costUnder nominalCost pricing u).isSome)
    {u : Usage} (hu : a.finalized = some u) :
    LastDearest (costUnder nominalCost pricing) snaps u := by
  have hne : snaps ≠ [] := fun hs => by simp [h.finalized_eq_none.mpr hs] at hu
  obtain ⟨v, hv⟩ := List.exists_mem_of_ne_nil snaps hne
  have hpr : pricing.isSome := by
    cases pricing <;> simp_all [costUnder]
  have hall : a.everySnapshotPriced = true := by
    rw [h.priced, List.all_eq_true]
    exact hp
  cases hw : a.pricedWinner with
  | none => exact absurd (hp v hv) (by simp [h.unpriced hw v hv])
  | some w =>
    have hwu : w.2 = u := by
      simpa [finalized, h.seen, hne, h.route, hpr, hall, hw] using hu
    exact hwu ▸ (h.winner w.1 w.2 hw).2

/-- **The last**, when one cannot. -/
theorem Holds.finalized_last
    (hp : ¬ (pricing.isSome ∧ ∀ u ∈ snaps, (costUnder nominalCost pricing u).isSome)) :
    a.finalized = snaps.getLast? := by
  have hn : (a.pricing.isSome && a.everySnapshotPriced) = false := by
    rw [h.route, h.priced, Bool.eq_false_iff]
    intro hb
    rw [Bool.and_eq_true, List.all_eq_true] at hb
    exact hp hb
  unfold finalized
  rw [hn, h.seen]
  cases hl : snaps.getLast? with
  | none => simp [List.getLast?_eq_none_iff.mp hl]
  | some u =>
    have hne : snaps ≠ [] := fun hs => by simp [hs] at hl
    simp [hne, h.usage u hl]

end

end UsageAccumulator

/-! ## What is emitted -/

/-- A hook that passes every part it takes part in. -/
def StreamHook.Passes (h : StreamHook Context) : Prop :=
  ∀ c p, h.interest p = true → (h.onPart c p).2 = .pass

theorem StreamHook.Passes.run {h : StreamHook Context} (hp : h.Passes) (c : Context)
    (ps : List StreamPart) : (h.run c ps).2 = .ok ps := by
  induction ps generalizing c with
  | nil => rfl
  | cons p ps ih =>
    by_cases hi : h.interest p = true
    · simp [StreamHook.run, hi, hp c p hi, ih, Except.map]
    · simp [StreamHook.run, hi, ih, Except.map]

theorem runHooks_passes {hooks : List (StreamHook Context)} (hp : ∀ h ∈ hooks, h.Passes)
    (c : Context) (ps : List StreamPart) : (runHooks hooks c ps).2 = .ok ps := by
  induction hooks generalizing c with
  | nil => rfl
  | cons h hs ih =>
    have hr := (hp h List.mem_cons_self).run c ps
    have hrun : h.run c ps = ((h.run c ps).1, .ok ps) := Prod.ext rfl hr
    rw [runHooks, hrun]
    exact ih (fun h hm => hp h (List.mem_cons_of_mem _ hm)) _

def isUsage : StreamPart → Bool
  | .usage _ => true
  | _ => false

section Emission

variable {hooks : List (StreamHook Context)} (hp : ∀ h ∈ hooks, h.Passes)
include hp

theorem processPart_passes (s : StreamContext Pricing Context) (part : StreamPart) :
    ∃ c, processPart nominalCost hooks s part
      = (⟨s.accumulatedUsage.observe nominalCost part, c⟩,
        .ok (normalized (s.accumulatedUsage.observe nominalCost part).finalized part)) :=
  ⟨_, Prod.ext rfl (runHooks_passes hp _ _)⟩

/-- **A whole stream**: its usage frames are held back, and its terminal comes out
with the usage selected. -/
theorem processAll_passes (parts : List StreamPart) (hparts : ∀ p ∈ parts, p.isTerminal = false)
    (last : StreamPart) (s : StreamContext Pricing Context) :
    (processAll nominalCost hooks s (parts ++ [last])).2
      = .ok (parts.filter (fun p => !isUsage p) ++ normalized
          (((parts ++ [last]).foldl (fun a part => a.observe nominalCost part)
            s.accumulatedUsage).finalized) last) := by
  induction parts generalizing s with
  | nil =>
    obtain ⟨c, hc⟩ := processPart_passes nominalCost hp s last
    simp [processAll, hc, Except.map]
  | cons part parts ih =>
    obtain ⟨c, hc⟩ := processPart_passes nominalCost hp s part
    have hrest := ih (fun p hm => hparts p (List.mem_cons_of_mem _ hm))
      ⟨s.accumulatedUsage.observe nominalCost part, c⟩
    have hn (fin : Option Usage) : normalized fin part = if isUsage part then [] else [part] := by
      cases part <;> simp_all [normalized, isUsage, StreamPart.isTerminal]
    simp only [List.cons_append, processAll, hc, hrest, Except.map, hn, List.foldl_cons]
    cases hu : isUsage part <;> simp [hu]

end Emission

/-! ## Main results -/

/-- **Which usage a stream has, and where it comes out.** The accumulator may have
been built in either way; the pricing is set before the first part. -/
theorem usage_selected (pricing : Option Pricing) (promptChars : UInt64) (priced : Bool)
    (c : Context) (parts : List StreamPart) :
    let start : UsageAccumulator Pricing :=
      { promptChars := promptChars, everySnapshotPriced := priced : UsageAccumulator Pricing
        }.setPricing pricing
    let finalized := fun ps => UsageAccumulator.finalized
      (ps.foldl (fun a part => a.observe nominalCost part) start)
    let snaps := parts.filterMap snapshot
    let allPriced := pricing.isSome ∧ ∀ u ∈ snaps, (costUnder nominalCost pricing u).isSome
    (finalized parts = none ↔ snaps = [])
      ∧ (allPriced → ∀ u, finalized parts = some u →
          LastDearest (costUnder nominalCost pricing) snaps u)
      ∧ (¬ allPriced → finalized parts = snaps.getLast?)
      ∧ (∀ parts', parts'.filterMap snapshot = snaps → finalized parts' = finalized parts)
      ∧ ∀ hooks : List (StreamHook Context), (∀ h ∈ hooks, h.Passes) →
          (∀ p ∈ parts, p.isTerminal = false) →
          (∀ reason, (processAll nominalCost hooks ⟨start, c⟩ (parts ++ [.finish reason])).2
            = .ok (parts.filter (fun p => !isUsage p)
                ++ ((finalized parts).map StreamPart.usage).toList ++ [.finish reason]))
          ∧ ∀ completion u,
            (processAll nominalCost hooks ⟨start, c⟩
                (parts ++ [.responseCompleted completion u])).2
              = .ok (parts.filter (fun p => !isUsage p)
                  ++ [.responseCompleted completion
                    (finalized (parts ++ [.responseCompleted completion u]))]) := by
  intro start finalized snaps allPriced
  let taken := snaps.foldl (fun a u => a.take nominalCost u) start
  have only (ps : List StreamPart) (hs : ps.filterMap snapshot = snaps) :
      finalized ps = taken.finalized := by
    obtain ⟨n, hn⟩ := UsageAccumulator.foldl_observe nominalCost start ps
    show UsageAccumulator.finalized (ps.foldl _ start) = _
    rw [hn, hs]
    rfl
  have holds : UsageAccumulator.Holds nominalCost pricing snaps taken :=
    (UsageAccumulator.holds_start pricing _ rfl rfl).takeAll snaps
  rw [only parts rfl]
  refine ⟨holds.finalized_eq_none, fun ha u => holds.finalized_dearest ha.2,
    holds.finalized_last, only, fun hooks hp ht => ⟨fun reason => ?_, fun completion u => ?_⟩⟩
  · rw [processAll_passes nominalCost hp parts ht, ← only parts rfl]
    simp [normalized, finalized, UsageAccumulator.observe]
  · exact processAll_passes nominalCost hp parts ht _ _

/-- At a route with a price per prompt token, the dearest of two frames comes out
before the end of the stream. -/
theorem usage_selected_finish :
    (processAll (fun price u => some (price * (u.promptTokens.toNat : ℚ)))
      ([] : List (StreamHook Unit)) ⟨({} : UsageAccumulator ℚ).setPricing (some 1), ()⟩
      ([.usage { promptTokens := 5 }, .textDelta "a", .usage { promptTokens := 3 }]
        ++ [.finish .stop])).2
      = .ok [.textDelta "a", .usage { promptTokens := 5 }, .finish .stop] := by
  have h := (usage_selected (fun price u => some (price * (u.promptTokens.toNat : ℚ)))
    (some 1) 0 false ()
    [.usage { promptTokens := 5 }, .textDelta "a", .usage { promptTokens := 3 }]).2.2.2.2 []
    (by simp) (by simp [StreamPart.isTerminal])
  rw [h.1 .stop]
  simp [isUsage, UsageAccumulator.observe, UsageAccumulator.take, UsageAccumulator.challenge,
    UsageAccumulator.setPricing, UsageAccumulator.finalized, costUnder,
    (by decide : ¬ (5 : ℚ) ≤ 3)]

/-- **A completion carries the usage itself.** -/
theorem completion_carries :
    ∃ emitted, (processAll (fun _ _ => none) ([] : List (StreamHook Unit))
        ⟨({} : UsageAccumulator ℚ).setPricing none, ()⟩
        [.usage { promptTokens := 5 }, .responseCompleted ⟨"r", .responses, "completed", none⟩ none]
        ).2 = .ok emitted
      ∧ (∀ u, StreamPart.usage u ∉ emitted)
      ∧ ∃ k, emitted = [.responseCompleted k (some { promptTokens := 5 })] :=
  ⟨[.responseCompleted _ (some { promptTokens := 5 })], rfl, by simp, _, rfl⟩

end BitRouter.Gateway
