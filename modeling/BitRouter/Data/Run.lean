import Mathlib.Data.List.Basic

/-!
# Runs of a partial step

A component is given as a step `σ → ε → Option σ` that answers `none`
where the program would abort, and a run folds the step over a list of
events. The two facts every safety argument needs are proved here once:
what a successful step preserves, a successful run preserves
(`foldlM_preserves`), and a step that cannot abort from a good state gives
runs that cannot abort either (`foldlM_total`).
-/

namespace BitRouter

variable {σ ε : Type*}

/-- **A run preserves what its steps preserve.** -/
theorem foldlM_preserves {step : σ → ε → Option σ} {P : σ → Prop}
    (hstep : ∀ s e s', P s → step s e = some s' → P s') :
    ∀ (es : List ε) {s s' : σ}, P s → es.foldlM step s = some s' → P s'
  | [], s, s', hs, h => by
    obtain rfl : s = s' := by simpa using h
    exact hs
  | e :: es, s, s', hs, h => by
    obtain ⟨t, ht, hrest⟩ := Option.bind_eq_some_iff.mp h
    exact foldlM_preserves hstep es (hstep s e t hs ht) hrest

/-- A run can be continued by a step. -/
theorem foldlM_concat {step : σ → ε → Option σ} {es : List ε} {e : ε} {s t u : σ}
    (hrun : es.foldlM step s = some t) (hstep : step t e = some u) :
    (es ++ [e]).foldlM step s = some u := by
  rw [List.foldlM_append, hrun]
  show ([e].foldlM step t : Option σ) = some u
  rw [List.foldlM_cons, hstep]
  rfl

/-- **A run does not abort where its steps do not**, and it ends in a good
state. -/
theorem foldlM_total {step : σ → ε → Option σ} {P : σ → Prop}
    (hstep : ∀ s e, P s → ∃ s', step s e = some s' ∧ P s') :
    ∀ (es : List ε) {s : σ}, P s → ∃ s', es.foldlM step s = some s' ∧ P s'
  | [], s, hs => ⟨s, rfl, hs⟩
  | e :: es, s, hs => by
    obtain ⟨t, ht, hPt⟩ := hstep s e hs
    obtain ⟨s', hs', hP⟩ := foldlM_total hstep es hPt
    refine ⟨s', ?_, hP⟩
    rw [List.foldlM_cons, ht]
    exact hs'

end BitRouter
