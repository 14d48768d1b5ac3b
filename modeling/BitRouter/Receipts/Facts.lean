import BitRouter.Receipts.Steps

/-!
# What a frozen journal answers

The facts of a journal without live permits, read off its entries: the
attempt of each entry, in the order of arming, and the dispatch state all of
them amount to. `freeze` and `dispatch` compute the latter in different
orders and agree on it (`dispatchFrom_eq`, `foldlM_freezeStep`).
-/

namespace BitRouter.Receipts

open Tenancy

/-- The outcome a settled phase is recorded as. -/
def Phase.settled : Phase → Outcome
  | .completed => .completed
  | .failed => .failed
  | _ => .unknown

theorem outcome_eq_ok {phase : Phase} {o : Outcome} :
    outcome phase = .ok o ↔ phase ≠ .reserved ∧ phase ≠ .armed ∧ phase.settled = o := by
  cases phase <;> simp [outcome, Phase.settled]

def Entry.attempt (e : Entry) : Attempt where
  attemptId := e.id
  target := some e.target
  outcome := e.phase.settled
  usage := e.evidence.project.usage
  nativeUsage := e.evidence.project.nativeUsage

namespace Journal

/-! ## Dispatch -/

/-- What entries without live permits amount to. -/
def dispatched (entries : List Entry) (before : DispatchState) : DispatchState :=
  if entries.any (fun e => e.phase.settled = .unknown) then .unknown
  else if entries = [] then before else .started

theorem dispatchFrom_eq {entries : List Entry}
    (h : ∀ e ∈ entries, e.phase ≠ .reserved ∧ e.phase ≠ .armed) (before : DispatchState) :
    dispatchFrom before entries = dispatched entries before := by
  induction entries generalizing before with
  | nil => rfl
  | cons e entries ih =>
    have ih := ih (fun x hx => h x (List.mem_cons_of_mem _ hx))
    obtain ⟨hreserved, harmed⟩ := h e List.mem_cons_self
    rw [dispatchFrom, if_neg hreserved]
    by_cases hunknown : e.phase = .unknown
    · rw [if_pos (Or.inr hunknown)]
      simp [dispatched, hunknown, Phase.settled]
    · rw [if_neg (by simp [harmed, hunknown]), ih]
      have hsettled : e.phase.settled ≠ .unknown := by
        cases hphase : e.phase <;> simp_all [Phase.settled]
      simp only [dispatched, List.any_cons, hsettled, decide_false, Bool.false_or, reduceCtorEq,
        if_false]
      split
      · rfl
      · split <;> rfl

theorem dispatched_perm {a b : List Entry} (h : a.Perm b) (before : DispatchState) :
    dispatched a before = dispatched b before := by
  have hany : a.any (fun e => e.phase.settled = .unknown)
      = b.any (fun e => e.phase.settled = .unknown) :=
    Bool.eq_iff_iff.mpr (by simp [h.mem_iff])
  have hnil : a = [] ↔ b = [] :=
    ⟨fun ha => List.Perm.eq_nil (ha ▸ h.symm), fun hb => List.Perm.eq_nil (hb ▸ h)⟩
  simp only [dispatched, hany, hnil]

/-! ## Freezing -/

/-- **The facts of a list of entries** are those of each of them, and there
are some exactly where all are settled. -/
theorem foldlM_freezeStep {entries : List Entry}
    {acc r : List Attempt × List (Option ℕ) × DispatchState}
    (h : entries.foldlM freezeStep acc = .ok r) :
    (∀ e ∈ entries, e.phase ≠ .reserved ∧ e.phase ≠ .armed)
      ∧ r.1 = acc.1 ++ entries.map Entry.attempt
      ∧ r.2.1 = acc.2.1 ++ entries.map (·.status)
      ∧ (acc.2.2 ≠ .unknown → r.2.2 = dispatched entries acc.2.2)
      ∧ (acc.2.2 = .unknown → r.2.2 = .unknown) := by
  induction entries generalizing acc with
  | nil =>
    obtain rfl := pure_eq_ok.mp h
    exact ⟨by simp, by simp, by simp, fun _ => rfl, id⟩
  | cons e entries ih =>
    rw [List.foldlM_cons, bind_eq_ok] at h
    obtain ⟨next, hnext, hrest⟩ := h
    obtain ⟨o, ho, hnext⟩ := bind_eq_ok.mp hnext
    obtain ⟨hreserved, harmed, rfl⟩ := outcome_eq_ok.mp ho
    obtain rfl := pure_eq_ok.mp hnext
    obtain ⟨hall, hattempts, hstatuses, hstarted, hunknown⟩ := ih hrest
    refine ⟨List.forall_mem_cons.mpr ⟨⟨hreserved, harmed⟩, hall⟩, ?_, ?_, fun hne => ?_,
      fun heq => hunknown (if_pos (Or.inr heq))⟩
    · rw [hattempts, List.append_assoc]
      rfl
    · rw [hstatuses, List.append_assoc]
      rfl
    · by_cases hsettled : e.phase.settled = .unknown
      · rw [hunknown (if_pos (Or.inl hsettled))]
        simp [dispatched, hsettled]
      · have hstate : ¬ (e.phase.settled = .unknown ∨ acc.2.2 = .unknown) := by
          rintro (h | h)
          · exact hsettled h
          · exact hne h
        have hnot := hstarted (by rw [if_neg hstate]; simp)
        rw [if_neg hstate] at hnot
        rw [hnot]
        simp only [dispatched, List.any_cons, hsettled, decide_false, Bool.false_or, reduceCtorEq,
          if_false]
        split
        · rfl
        · split <;> rfl

/-- **What freezing answers.** -/
theorem freeze_eq_ok {j : Journal} {f : Frozen} (h : j.freeze.1 = .ok f) :
    (∀ e ∈ j.entries, e.live = false)
      ∧ (∀ e ∈ j.entries, e.phase ≠ .reserved ∧ e.phase ≠ .armed)
      ∧ f = { owner := j.owner
              attempts := j.ordered.map Entry.attempt
              usage := aggregate (j.ordered.map Entry.attempt)
              dispatch := dispatched j.entries .notStarted
              httpStatuses := j.ordered.map (·.status)
              usageEvidence := { j.usageEvidence with
                terminals := (j.entries.filter (fun e => e.terminalObserved)).map (·.id) } } := by
  obtain ⟨_, hlive, h⟩ := bind_eq_ok.mp h
  obtain ⟨⟨attempts, statuses, dispatch⟩, hfold, h⟩ := bind_eq_ok.mp h
  rw [ensure_eq_ok] at hlive
  have hperm : j.ordered.Perm j.entries := List.perm_insertionSort _ _
  obtain ⟨hall, rfl, rfl, hstarted, -⟩ := foldlM_freezeStep hfold
  obtain rfl := hstarted (by simp)
  obtain rfl := pure_eq_ok.mp h
  refine ⟨fun e he => ?_, fun e he => hall e (hperm.mem_iff.mpr he), ?_⟩
  · by_contra hne
    exact hlive (List.any_eq_true.mpr ⟨e, he, by simpa using hne⟩)
  · rw [← dispatched_perm hperm]
    rfl

/-- **An unknown attempt decides the fallback.** -/
theorem fallbackEvidence_unknown {j : Journal} {e : Entry} {s : Option SettledAttempt}
    (he : e ∈ j.entries) (hphase : e.phase = .unknown) (h : j.fallbackEvidence = .ok s) :
    ∃ settled, s = some settled ∧ settled.outcome = .unknown := by
  obtain ⟨_, -, h⟩ := bind_eq_ok.mp h
  have hfound : (j.entries.find? (fun e => e.phase = .unknown)).isSome = true :=
    List.find?_isSome.mpr ⟨e, he, by simpa using hphase⟩
  obtain ⟨x, hx⟩ := Option.isSome_iff_exists.mp hfound
  have hunknown : x.phase = .unknown := by simpa using List.find?_some hx
  simp only [deciding, hx, Option.some_or, outcome, hunknown] at h
  obtain rfl := pure_eq_ok.mp h
  exact ⟨_, rfl, rfl⟩

end Journal

end BitRouter.Receipts
