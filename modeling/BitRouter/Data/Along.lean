import Mathlib.Data.List.Basic
import Mathlib.Data.List.Induction
import Mathlib.Tactic.Common

/-!
# Conditions along a list

What every element of a list has to meet, given the elements before it. Such a
condition holds along a longer list exactly when it holds along the shorter one
and of the element added (`along_concat`), which is what an induction over a
run needs; and it is decided where the condition on one element is.

The last thing that happened of a kind is told by `Since`: an element opened
something, and no later one closed it.
-/

namespace BitRouter

variable {α : Type*} {P Q : List α → α → Prop} {xs : List α} {x : α}

/-- **Every element meets a condition** on what came before it. -/
def Along (P : List α → α → Prop) (xs : List α) : Prop :=
  ∀ pre x post, xs = pre ++ x :: post → P pre x

theorem along_nil : Along P [] := fun pre x post h => absurd h (by simp)

theorem along_concat : Along P (xs ++ [x]) ↔ Along P xs ∧ P xs x := by
  constructor
  · intro h
    refine ⟨fun pre y post hxs => h pre y (post ++ [x]) ?_, h xs x [] rfl⟩
    rw [hxs, List.append_assoc, List.cons_append]
  · rintro ⟨hxs, hx⟩ pre y post h
    cases post using List.reverseRecOn with
    | nil =>
      obtain ⟨rfl, hlast⟩ := List.append_inj' h rfl
      obtain rfl := List.singleton_inj.mp hlast
      exact hx
    | append_singleton post z =>
      rw [← List.cons_append, ← List.append_assoc] at h
      exact hxs pre y post (List.append_inj' h rfl).1

theorem Along.mono (h : Along P xs) (hPQ : ∀ pre x, P pre x → Q pre x) : Along Q xs :=
  fun pre x post hxs => hPQ pre x (h pre x post hxs)

/-- What holds along a list holds along its beginnings. -/
theorem along_of_append {ys : List α} (h : Along P (xs ++ ys)) : Along P xs :=
  fun pre x post hxs => h pre x (post ++ ys) (by rw [hxs, List.append_assoc, List.cons_append])

/-- The test of a condition along a list, behind some front. -/
def alongFrom (P : List α → α → Prop) [∀ pre x, Decidable (P pre x)] : List α → List α → Bool
  | _, [] => true
  | pre, x :: xs => decide (P pre x) && alongFrom P (pre ++ [x]) xs

theorem alongFrom_iff [∀ pre x, Decidable (P pre x)] (front : List α) : alongFrom P front xs = true
    ↔ ∀ pre x post, xs = pre ++ x :: post → P (front ++ pre) x := by
  induction xs generalizing front with
  | nil => exact ⟨fun _ pre x post h => absurd h (by simp), fun _ => rfl⟩
  | cons y xs ih =>
    rw [alongFrom, Bool.and_eq_true, decide_eq_true_eq, ih]
    constructor
    · rintro ⟨hy, hxs⟩ pre x post h
      cases pre with
      | nil =>
        obtain ⟨rfl, rfl⟩ := List.cons.inj h
        rwa [List.append_nil]
      | cons z pre =>
        obtain ⟨rfl, rfl⟩ := List.cons.inj h
        have hx := hxs pre x post rfl
        rwa [List.append_assoc, List.singleton_append] at hx
    · intro h
      refine ⟨?_, fun pre x post hxs => ?_⟩
      · have hy := h [] y xs rfl
        rwa [List.append_nil] at hy
      · have hx := h (y :: pre) x post (by rw [hxs, List.cons_append])
        rwa [List.append_assoc, List.singleton_append]

instance decidableAlong [∀ pre x, Decidable (P pre x)] : Decidable (Along P xs) :=
  decidable_of_iff (alongFrom P [] xs = true) (by rw [alongFrom_iff]; rfl)

/-- **Every place of a list** is one of its indices. -/
theorem forall_split_iff {Q : List α → α → List α → Prop} :
    (∀ pre x post, xs = pre ++ x :: post → Q pre x post)
      ↔ ∀ i (h : i < xs.length), Q (xs.take i) xs[i] (xs.drop (i + 1)) := by
  constructor
  · intro h i hi
    refine h _ _ _ ?_
    rw [← List.drop_eq_getElem_cons hi, List.take_append_drop]
  · rintro h pre x post rfl
    have hat := h pre.length (by simp)
    simpa using hat

instance decidableSplits {Q : List α → α → List α → Prop}
    [∀ pre x post, Decidable (Q pre x post)] :
    Decidable (∀ pre x post, xs = pre ++ x :: post → Q pre x post) :=
  decidable_of_iff _ forall_split_iff.symm

/-! ## What happened last -/

/-- **An element opens, and none behind it closes.** -/
def Since (opens closes : α → Prop) (xs : List α) : Prop :=
  ∃ pre x post, xs = pre ++ x :: post ∧ opens x ∧ ∀ y ∈ post, ¬ closes y

variable {opens closes : α → Prop}

theorem not_since_nil : ¬ Since opens closes [] := by
  rintro ⟨pre, x, post, h, -⟩
  exact absurd h (by simp)

theorem since_concat :
    Since opens closes (xs ++ [x]) ↔ opens x ∨ (¬ closes x ∧ Since opens closes xs) := by
  constructor
  · rintro ⟨pre, y, post, h, hopens, hpost⟩
    cases post using List.reverseRecOn with
    | nil =>
      obtain ⟨rfl, hlast⟩ := List.append_inj' h rfl
      rw [List.singleton_inj.mp hlast]
      exact Or.inl hopens
    | append_singleton post z =>
      rw [← List.cons_append, ← List.append_assoc] at h
      obtain ⟨rfl, hlast⟩ := List.append_inj' h rfl
      rw [List.singleton_inj.mp hlast]
      exact Or.inr ⟨hpost z (by simp), pre, y, post, rfl, hopens,
        fun w hw => hpost w (List.mem_append_left _ hw)⟩
  · rintro (hopens | ⟨hcloses, pre, y, post, rfl, hopens, hpost⟩)
    · exact ⟨xs, x, [], rfl, hopens, fun y hy => absurd hy List.not_mem_nil⟩
    · refine ⟨pre, y, post ++ [x], by simp, hopens, fun z hz => ?_⟩
      rcases List.mem_append.mp hz with hz | hz
      · exact hpost z hz
      · rw [List.mem_singleton.mp hz]
        exact hcloses

instance decidableSince [DecidablePred opens] [DecidablePred closes] :
    Decidable (Since opens closes xs) :=
  decidable_of_iff (xs.foldl
    (fun b x => decide (opens x) || (!decide (closes x) && b)) false = true)
    (by
      induction xs using List.reverseRecOn with
      | nil => exact ⟨fun h => absurd h Bool.false_ne_true, fun h => absurd h not_since_nil⟩
      | append_singleton xs x ih =>
        rw [List.foldl_append, since_concat, ← ih]
        simp)

end BitRouter
