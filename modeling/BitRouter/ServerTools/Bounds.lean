import BitRouter.ServerTools.Loop

/-!
# The bounds of a run

Whatever the upstream answers, a run stops: it executes at most
`maxIterations` turns and asks the upstream at most once more.
-/

namespace BitRouter.ServerTools

open Ai

def Decision.isExecute : Decision → Bool
  | .execute _ _ => true
  | _ => false

/-- The calls a turn executes are all it makes, and the router's. -/
def Authorized (owned : List String) (t : List Content × Decision) : Prop :=
  ∀ calls failed, t.2 = .execute calls failed →
    calls = t.1.filterMap pendingCall ∧ ∀ c ∈ calls, c.name ∈ owned

/-- **The turns of a run**, after `rounds` executed ones the last `errors` of
which failed. Each turn but the last is executed, and fewer than
`maxConsecutiveErrors` of them fail in a row. -/
inductive Bounded (c : ServerToolLoopConfig) (owned : List String) :
    ℕ → ℕ → List (List Content × Decision) → Prop
  | none (rounds errors : ℕ) : Bounded c owned rounds errors []
  | last (rounds errors : ℕ) (t : List Content × Decision) (ht : Authorized owned t)
    (hround : t.2.isExecute = true → rounds < c.maxIterations) :
    Bounded c owned rounds errors [t]
  | again (rounds errors : ℕ) (content : List Content) (calls : List RouterCall) (failed : Bool)
    (turns : List (List Content × Decision))
    (ht : Authorized owned (content, .execute calls failed)) (hround : rounds < c.maxIterations)
    (herrors : (if failed then errors + 1 else 0) < c.maxConsecutiveErrors)
    (hturns : Bounded c owned (rounds + 1) (if failed then errors + 1 else 0) turns) :
    Bounded c owned rounds errors ((content, .execute calls failed) :: turns)

theorem Bounded.length_le {c : ServerToolLoopConfig} {owned : List String} {rounds errors : ℕ}
    {turns : List (List Content × Decision)} (h : Bounded c owned rounds errors turns) :
    turns.length ≤ c.maxIterations - rounds + 1
      ∧ turns.countP (fun t => t.2.isExecute) ≤ c.maxIterations - rounds := by
  induction h with
  | none rounds errors => exact ⟨Nat.zero_le _, Nat.zero_le _⟩
  | last rounds errors t ht hround =>
    refine ⟨Nat.succ_le_succ (Nat.zero_le _), ?_⟩
    rw [List.countP_singleton]
    split
    · exact Nat.sub_pos_of_lt (hround ‹_›)
    · exact Nat.zero_le _
  | again rounds errors content calls failed turns ht hround herrors hturns ih =>
    rw [List.length_cons, List.countP_cons_of_pos rfl]
    omega

theorem classifyTurn_authorized {content : List Content} {owned : List String}
    {calls : List RouterCall} (h : classifyTurn content owned = .execute calls) :
    calls = content.filterMap pendingCall ∧ ∀ c ∈ calls, c.name ∈ owned := by
  unfold classifyTurn at h
  dsimp only at h
  split at h
  · cases h
  · rename_i howned
    split at h
    · cases h
    · obtain rfl := TurnDisposition.execute.inj h
      refine ⟨rfl, fun c hc => by_contra fun hnot => howned ?_⟩
      exact List.any_eq_true.mpr ⟨c, hc, decide_eq_true hnot⟩

namespace ServerToolLoop

/-- **What one turn does to the bounds.** -/
theorem turn_bounded (l : ServerToolLoop) (owned : List String) (elapsed : ℕ → ℕ)
    (s : LoopState) (g : GenerateResult) :
    match l.turn owned elapsed s g with
    | (d, .again s') => ∃ calls failed, d = .execute calls failed
        ∧ Authorized owned (g.content, d) ∧ s.rounds < l.config.maxIterations
        ∧ s'.rounds = s.rounds + 1
        ∧ s'.consecutiveErrors = (if failed then s.consecutiveErrors + 1 else 0)
        ∧ s'.consecutiveErrors < l.config.maxConsecutiveErrors
    | (d, .stop _) => Authorized owned (g.content, d)
        ∧ (d.isExecute = true → s.rounds < l.config.maxIterations) := by
  have hrounds : (s.observe g.usage).rounds = s.rounds := by cases g.usage <;> rfl
  have herrors : (s.observe g.usage).consecutiveErrors = s.consecutiveErrors := by
    cases g.usage <;> rfl
  cases hclass : classifyTurn g.content owned with
  | done =>
    rw [turn_done hclass]
    exact ⟨fun _ _ => Decision.noConfusion, Bool.noConfusion⟩
  | handBack =>
    rw [turn_handBack hclass]
    exact ⟨fun _ _ => Decision.noConfusion, Bool.noConfusion⟩
  | execute calls =>
    by_cases hbound : l.AtBound elapsed (s.observe g.usage).rounds
    · rw [turn_bound hclass hbound]
      exact ⟨fun _ _ => Decision.noConfusion, Bool.noConfusion⟩
    · have hround : s.rounds < l.config.maxIterations :=
        hrounds ▸ not_le.mp fun hle => hbound (.inl hle)
      have hauth : ∀ failed, Authorized owned (g.content, .execute calls failed) :=
        fun failed calls' failed' heq => by
          obtain ⟨rfl, -⟩ := Decision.execute.inj heq
          exact classifyTurn_authorized hclass
      rw [turn_execute hclass hbound]
      by_cases hstop : l.config.maxConsecutiveErrors
          ≤ (l.afterCalls (s.observe g.usage) g.content calls).consecutiveErrors
      · rw [if_pos hstop]
        exact ⟨hauth _, fun _ => hround⟩
      · rw [if_neg hstop]
        exact ⟨calls, _, rfl, hauth _, hround, congrArg (· + 1) hrounds, by rw [← herrors]; rfl,
          not_le.mp hstop⟩

theorem runLoop_bounded (l : ServerToolLoop) (owned : List String) (elapsed : ℕ → ℕ)
    (s : LoopState) (script : List (Except BitrouterError PipelineOutput)) :
    Bounded l.config owned s.rounds s.consecutiveErrors (l.runLoop owned elapsed s script).turns
      ∧ ∀ n, l.config.maxIterations < s.rounds + (n + 1) →
        l.runLoop owned elapsed s (script.take (n + 1)) = l.runLoop owned elapsed s script := by
  induction script generalizing s with
  | nil => exact ⟨.none _ _, fun _ _ => rfl⟩
  | cons answer script ih =>
    match answer with
    | .error e => exact ⟨.none _ _, fun _ _ => rfl⟩
    | .ok .decisions => exact ⟨.none _ _, fun _ _ => rfl⟩
    | .ok (.generation g) =>
      have hstep := turn_bounded l owned elapsed s g
      simp only [List.take_succ_cons, runLoop]
      cases hturn : l.turn owned elapsed s g with
      | mk d step =>
        rw [hturn] at hstep
        cases step with
        | stop outcome => exact ⟨.last _ _ _ hstep.1 hstep.2, fun _ _ => rfl⟩
        | again s' =>
          obtain ⟨calls, failed, rfl, ht, hround, hrounds, herrors, hless⟩ := hstep
          obtain ⟨hturns, htake⟩ := ih s'
          rw [hrounds, herrors] at hturns
          refine ⟨.again _ _ _ _ _ _ ht hround (herrors ▸ hless) hturns, fun n hn => ?_⟩
          obtain ⟨n, rfl⟩ := Nat.exists_eq_add_one_of_ne_zero (show n ≠ 0 by omega)
          dsimp only
          rw [htake n (by omega)]

/-- **Every run stops within its bounds**, whatever the upstream answers and
however long it would go on: it executes at most `maxIterations` turns, and
no answer after one more makes a difference. -/
theorem run_halts (l : ServerToolLoop) (elapsed : ℕ → ℕ) (base : Prompt)
    (script : List (Except BitrouterError PipelineOutput)) :
    (∀ working owned, l.inject base = .ok (working, owned) →
        Bounded l.config owned 0 0 (l.runWithProvenance elapsed base script).turns)
      ∧ (l.runWithProvenance elapsed base script).turns.length ≤ l.config.maxIterations + 1
      ∧ (l.runWithProvenance elapsed base script).turns.countP (fun t => t.2.isExecute)
        ≤ l.config.maxIterations
      ∧ l.runWithProvenance elapsed base (script.take (l.config.maxIterations + 1))
        = l.runWithProvenance elapsed base script := by
  unfold runWithProvenance
  cases hinject : l.inject base with
  | error e => exact ⟨fun _ _ heq => (nomatch heq), Nat.zero_le _, Nat.zero_le _, rfl⟩
  | ok injected =>
    obtain ⟨working, owned⟩ := injected
    obtain ⟨hturns, htake⟩ := runLoop_bounded l owned elapsed { working := working } script
    refine ⟨fun _ _ heq => ?_, hturns.length_le.1, hturns.length_le.2, htake _ (by simp)⟩
    obtain ⟨rfl, rfl⟩ := Prod.mk.inj (Except.ok.inj heq)
    exact hturns

end ServerToolLoop

end BitRouter.ServerTools
