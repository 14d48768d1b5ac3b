import BitRouter.Data.Sublist
import BitRouter.ServerTools.Loop

/-!
# The records of a run

A run returns a record for each server-tool call it observed: the calls the
provider executed within a turn and the calls the router executed after it.
`turnRecords` is what a turn should add. Every exit adds it except the one
at the iteration and time bound, which returns before the provider's calls
of its turn are recorded; the records are complete exactly when no provider
call is lost there.
-/

namespace BitRouter.ServerTools

open Ai

/-- The calls observed on a turn: the provider's, then the router's. -/
def turnRecords (t : List Content × Decision) : List ServerToolCall :=
  t.1.filterMap providerRecord ++
    match t.2 with
    | .execute calls failed => calls.map (routerRecord failed)
    | _ => []

/-- The records a turn leaves in the result. -/
def keptRecords (t : List Content × Decision) : List ServerToolCall :=
  if t.2 = .bound then [] else turnRecords t

theorem keptRecords_of_ne {t : List Content × Decision} (h : t.2 ≠ .bound) :
    keptRecords t = turnRecords t := if_neg h

theorem keptRecords_sublist (t : List Content × Decision) :
    (keptRecords t).Sublist (turnRecords t) := by
  unfold keptRecords
  split
  · exact List.nil_sublist _
  · exact List.Sublist.refl _

theorem keptRecords_eq_iff (t : List Content × Decision) :
    keptRecords t = turnRecords t ↔ (t.2 = .bound → t.1.filterMap providerRecord = []) := by
  obtain ⟨content, d⟩ := t
  cases d with
  | bound => simp [keptRecords, turnRecords, eq_comm]
  | _ => simp [keptRecords]

namespace ServerToolLoop

variable {l : ServerToolLoop} {owned : List String} {elapsed : ℕ → ℕ}

theorem afterCalls_serverCalls (s : LoopState) (content : List Content) (calls : List RouterCall) :
    (l.afterCalls s content calls).serverCalls = s.serverCalls ++
      turnRecords (content, .execute calls (hadError (l.executeCalls s.executed calls))) := by
  simp [afterCalls, turnRecords, recordProviderCalls]

theorem turn_records (l : ServerToolLoop) (owned : List String) (elapsed : ℕ → ℕ)
    (s : LoopState) (g : GenerateResult) :
    match l.turn owned elapsed s g with
    | (d, .again s') => d ≠ .bound ∧ s'.serverCalls = s.serverCalls ++ turnRecords (g.content, d)
    | (d, .stop o) => o.serverToolCalls = s.serverCalls ++ keptRecords (g.content, d) := by
  cases hclass : classifyTurn g.content owned with
  | done =>
    rw [turn_done hclass]
    simp [keptRecords, turnRecords, recordProviderCalls]
  | handBack =>
    rw [turn_handBack hclass]
    simp [keptRecords, turnRecords, recordProviderCalls]
  | execute calls =>
    by_cases hbound : l.AtBound elapsed (s.observe g.usage).rounds
    · rw [turn_bound hclass hbound]
      simp [keptRecords]
    · have hcalls := afterCalls_serverCalls (l := l) (s.observe g.usage) g.content calls
      rw [LoopState.observe_serverCalls] at hcalls
      rw [turn_execute hclass hbound]
      split
      · rename_i heq
        obtain ⟨rfl, hstep⟩ := Prod.mk.inj heq
        split at hstep
        · cases hstep
        · obtain rfl := Step.again.inj hstep
          exact ⟨Decision.noConfusion, hcalls⟩
      · rename_i heq
        obtain ⟨rfl, hstep⟩ := Prod.mk.inj heq
        split at hstep
        · obtain rfl := Step.stop.inj hstep
          exact hcalls
        · cases hstep

/-- **What a run records**: what each of its turns keeps, in turn order. -/
theorem runLoop_records {s : LoopState} {script : List (Except BitrouterError PipelineOutput)}
    {o : ServerToolLoopOutcome} (h : (l.runLoop owned elapsed s script).result = .ok o) :
    o.serverToolCalls =
      s.serverCalls ++ (l.runLoop owned elapsed s script).turns.flatMap keptRecords := by
  induction script generalizing s with
  | nil => cases h
  | cons answer script ih =>
    match answer with
    | .error e => cases h
    | .ok .decisions => cases h
    | .ok (.generation g) =>
      rw [runLoop] at h ⊢
      have hstep := turn_records l owned elapsed s g
      cases hturn : l.turn owned elapsed s g with
      | mk d step =>
        rw [hturn] at h hstep
        cases step with
        | stop outcome =>
          obtain rfl := Except.ok.inj h
          simpa using hstep
        | again s' =>
          obtain ⟨hbound, hcalls⟩ := hstep
          have hkept : keptRecords (g.content, d) = turnRecords (g.content, d) :=
            keptRecords_of_ne hbound
          simp only [List.flatMap_cons, hkept, ih h, hcalls, List.append_assoc]

theorem runLoop_turns {s : LoopState} {script : List (Except BitrouterError PipelineOutput)} :
    ∃ gs : List GenerateResult, gs.map (fun g => .ok (.generation g)) <+: script ∧
      (l.runLoop owned elapsed s script).turns.map Prod.fst = gs.map GenerateResult.content := by
  induction script generalizing s with
  | nil => exact ⟨[], by simp, rfl⟩
  | cons answer script ih =>
    match answer with
    | .error e => exact ⟨[], by simp, rfl⟩
    | .ok .decisions => exact ⟨[], by simp, rfl⟩
    | .ok (.generation g) =>
      rw [runLoop]
      cases l.turn owned elapsed s g with
      | mk d step =>
        cases step with
        | stop outcome => exact ⟨[g], by simp, rfl⟩
        | again s' =>
          obtain ⟨gs, hinitial, hcontent⟩ := @ih s'
          exact ⟨g :: gs, by simpa using hinitial, by simp [hcontent]⟩

/-- **When the records are complete.** The turns of a run that returns are
the answers of its upstream. The result lists, in turn order, every call the
provider executed and every call the router executed, if and only if the run
does not stop at the iteration or time bound on a turn with a
provider-executed call. -/
theorem run_records_iff (l : ServerToolLoop) (elapsed : ℕ → ℕ) (base : Prompt)
    (script : List (Except BitrouterError PipelineOutput)) {o : ServerToolLoopOutcome}
    (h : (l.runWithProvenance elapsed base script).result = .ok o) :
    (∃ gs : List GenerateResult, gs.map (fun g => .ok (.generation g)) <+: script ∧
      (l.runWithProvenance elapsed base script).turns.map Prod.fst
        = gs.map GenerateResult.content) ∧
    (o.serverToolCalls = (l.runWithProvenance elapsed base script).turns.flatMap turnRecords ↔
      ∀ t ∈ (l.runWithProvenance elapsed base script).turns, t.2 = .bound →
        t.1.filterMap providerRecord = []) := by
  unfold runWithProvenance at h ⊢
  cases hinject : l.inject base with
  | error e => rw [hinject] at h; cases h
  | ok injected =>
    rw [hinject] at h
    refine ⟨runLoop_turns, ?_⟩
    rw [runLoop_records h, List.nil_append, flatMap_eq_iff_of_sublist keptRecords_sublist]
    exact forall₂_congr (fun t _ => keptRecords_eq_iff t)

/-! ### A provider call lost at the bound -/

/-- The search loop without a round to run. -/
def noRounds : ServerToolLoop := { searchLoop with config := { maxIterations := 0 } }

/-- A turn with a provider-executed search and a call of the router's. -/
def mixedTurn : PipelineOutput :=
  .generation { content := [.toolCall "p1" "web_search" "{}" true false [],
    .toolCall "c1" "search" "{}" false false []] }

/-- **The bound loses a provider call.** The one turn of the run has an
executed call that the result does not list. -/
theorem noRounds_drops_record :
    ∃ o, (noRounds.runWithProvenance (fun _ => 0) {} [.ok mixedTurn]).result = .ok o
      ∧ o.serverToolCalls = []
      ∧ (noRounds.runWithProvenance (fun _ => 0) {} [.ok mixedTurn]).turns.flatMap turnRecords
        = [{ name := "web_search", kind := .provider, callId := some "p1", status := .ok,
             resultCount := 0 }] :=
  ⟨_, rfl, rfl, rfl⟩

/-- The same turn within the bound, followed by an answer. -/
theorem run_records_oneRound :
    ∃ o, (searchLoop.runWithProvenance (fun _ => 0) {}
        [.ok mixedTurn, .ok (.generation { content := [] })]).result = .ok o
      ∧ o.serverToolCalls = (searchLoop.runWithProvenance (fun _ => 0) {}
        [.ok mixedTurn, .ok (.generation { content := [] })]).turns.flatMap turnRecords := by
  refine ⟨_, rfl, (run_records_iff _ _ _ _ rfl).2.mpr (fun t ht hbound => ?_)⟩
  have hturns : ∀ t ∈ (searchLoop.runWithProvenance (fun _ => 0) {}
      [.ok mixedTurn, .ok (.generation { content := [] })]).turns, t.2 ≠ .bound := by decide
  exact absurd hbound (hturns t ht)

end ServerToolLoop

end BitRouter.ServerTools
