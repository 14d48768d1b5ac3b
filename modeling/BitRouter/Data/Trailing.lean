import Mathlib.Data.List.Induction
import Mathlib.Data.List.Infix
import Mathlib.Tactic.Common

/-!
# Streaks and countdowns along a list

Two things a run can keep of the events behind it. The *trailing* streak of a
property is how many of the last events have it without a gap; it grows by one
or falls to zero. A *countdown* is set by some events and falls by one at every
other; while it is positive, one of the last few events has set it.
-/

namespace BitRouter

variable {α : Type*}

/-! ## Streaks -/

/-- How many of the last elements have `p` without a gap. -/
def trailing (p : α → Bool) (xs : List α) : ℕ := (xs.reverse.takeWhile p).length

@[simp] theorem trailing_nil (p : α → Bool) : trailing p [] = 0 := rfl

theorem trailing_concat (p : α → Bool) (xs : List α) (x : α) :
    trailing p (xs ++ [x]) = if p x then trailing p xs + 1 else 0 := by
  unfold trailing
  rw [List.reverse_append, List.reverse_singleton, List.singleton_append, List.takeWhile_cons]
  split <;> simp

/-- A final segment that has `p` throughout is part of the streak. -/
theorem length_le_trailing {p : α → Bool} (xs : List α) {ys : List α} (h : ∀ y ∈ ys, p y = true) :
    ys.length ≤ trailing p (xs ++ ys) := by
  induction ys using List.reverseRecOn with
  | nil => exact Nat.zero_le _
  | append_singleton ys y ih =>
    rw [← List.append_assoc, trailing_concat, if_pos (h y (by simp)), List.length_append]
    exact Nat.succ_le_succ (ih fun z hz => h z (List.mem_append_left _ hz))

/-- Where the last element lacks `p` there is no streak. -/
theorem trailing_eq_zero {p : α → Bool} {xs : List α} (h : ∀ x ∈ xs.getLast?, p x = false) :
    trailing p xs = 0 := by
  induction xs using List.reverseRecOn with
  | nil => rfl
  | append_singleton xs x _ =>
    rw [trailing_concat, h x (by simp)]
    rfl

/-! ## Countdowns -/

/-- What is left of a countdown of `n`, set by the elements with `f`. -/
def countdown (n : ℕ) (f : α → Bool) (xs : List α) : ℕ :=
  xs.foldl (fun left x => if f x then n else left - 1) 0

@[simp] theorem countdown_nil (n : ℕ) (f : α → Bool) : countdown n f [] = 0 := rfl

theorem countdown_concat (n : ℕ) (f : α → Bool) (xs : List α) (x : α) :
    countdown n f (xs ++ [x]) = if f x then n else countdown n f xs - 1 := by
  unfold countdown
  rw [List.foldl_append]
  rfl

/-- **After it is set, a countdown falls by one** as long as nothing sets it. -/
theorem countdown_after {n : ℕ} {f : α → Bool} (xs : List α) {x : α} (hx : f x = true)
    {ys : List α} (h : ∀ y ∈ ys, f y = false) :
    countdown n f (xs ++ x :: ys) = n - ys.length := by
  induction ys using List.reverseRecOn with
  | nil => rw [countdown_concat, if_pos hx]; rfl
  | append_singleton ys y ih =>
    have hsplit : xs ++ x :: (ys ++ [y]) = (xs ++ x :: ys) ++ [y] := by simp
    rw [hsplit, countdown_concat, h y (by simp),
      ih fun z hz => h z (List.mem_append_left _ hz), List.length_append]
    rfl

/-- **A positive countdown was set** by one of the last elements. -/
theorem exists_of_countdown_pos {n : ℕ} {f : α → Bool} {xs : List α} (h : 0 < countdown n f xs) :
    ∃ pre x post, xs = pre ++ x :: post ∧ f x = true ∧ post.length < n := by
  have hset : ∀ xs : List α, 0 < countdown n f xs → ∃ pre x post, xs = pre ++ x :: post
      ∧ f x = true ∧ post.length + countdown n f xs ≤ n := by
    intro xs
    induction xs using List.reverseRecOn with
    | nil => exact fun h => absurd h (by simp)
    | append_singleton xs x ih =>
      intro h
      rw [countdown_concat] at h ⊢
      by_cases hx : f x = true
      · rw [if_pos hx]
        exact ⟨xs, x, [], rfl, hx, by simp⟩
      · rw [if_neg hx] at h ⊢
        obtain ⟨pre, y, post, rfl, hy, hle⟩ := ih (Nat.lt_of_lt_of_le h (Nat.sub_le _ _))
        refine ⟨pre, y, post ++ [x], by simp, hy, ?_⟩
        rw [List.length_append, List.length_singleton]
        omega
  obtain ⟨pre, x, post, hxs, hx, hle⟩ := hset xs h
  exact ⟨pre, x, post, hxs, hx, by omega⟩

end BitRouter
