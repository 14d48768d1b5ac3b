import Mathlib.Data.List.Basic
import Mathlib.Data.List.Infix
import Mathlib.Tactic.Common

/-!
# Delimited lists

A list of pieces written as one list, a separator before each piece. Where
no piece contains the separator the writing can be undone (`join_inj`).
-/

namespace BitRouter.Delimited

variable {α : Type*} (sep : α)

/-- The pieces, each after a separator. -/
def join (pieces : List (List α)) : List α := pieces.flatMap (sep :: ·)

@[simp] theorem join_cons (piece : List α) (pieces : List (List α)) :
    join sep (piece :: pieces) = sep :: (piece ++ join sep pieces) := rfl

/-- Whether a list is empty or starts with the separator. -/
def AtBoundary (cs : List α) : Prop := ∀ c ∈ cs.head?, c = sep

theorem atBoundary_cons (cs : List α) : AtBoundary sep (sep :: cs) := by
  simp [AtBoundary]

theorem atBoundary_join (pieces : List (List α)) : AtBoundary sep (join sep pieces) := by
  cases pieces with
  | nil => simp [AtBoundary, join]
  | cons piece pieces => exact atBoundary_cons sep _

variable {sep}

/-- A piece ends where the first separator stands. -/
theorem append_inj_of_notMem {p q x y : List α} (hp : sep ∉ p) (hq : sep ∉ q)
    (hx : AtBoundary sep x) (hy : AtBoundary sep y) (h : p ++ x = q ++ y) :
    p = q ∧ x = y := by
  induction p generalizing q with
  | nil =>
    cases q with
    | nil => exact ⟨rfl, h⟩
    | cons d q =>
      refine absurd ?_ hq
      have hd : d = sep := hx d (by rw [List.nil_append] at h; simp [h])
      exact hd ▸ List.mem_cons_self
  | cons c p ih =>
    cases q with
    | nil =>
      refine absurd ?_ hp
      have hc : c = sep := hy c (by rw [List.nil_append] at h; simp [← h])
      exact hc ▸ List.mem_cons_self
    | cons d q =>
      rw [List.cons_append, List.cons_append, List.cons.injEq] at h
      obtain ⟨rfl, h⟩ := h
      obtain ⟨rfl, hxy⟩ := ih (List.not_mem_of_not_mem_cons hp)
        (List.not_mem_of_not_mem_cons hq) h
      exact ⟨rfl, hxy⟩

/-- **Pieces free of the separator are determined by their writing.** -/
theorem join_inj {ps qs : List (List α)} (hp : ∀ p ∈ ps, sep ∉ p) (hq : ∀ q ∈ qs, sep ∉ q)
    (h : join sep ps = join sep qs) : ps = qs := by
  induction ps generalizing qs with
  | nil =>
    cases qs with
    | nil => rfl
    | cons q qs => simp [join] at h
  | cons p ps ih =>
    cases qs with
    | nil => simp [join] at h
    | cons q qs =>
      obtain ⟨hp, hps⟩ := List.forall_mem_cons.mp hp
      obtain ⟨hq, hqs⟩ := List.forall_mem_cons.mp hq
      rw [join_cons, join_cons, List.cons.injEq] at h
      obtain ⟨rfl, hrest⟩ := append_inj_of_notMem hp hq (atBoundary_join sep ps)
        (atBoundary_join sep qs) h.2
      rw [ih hps hqs hrest]

/-! ## Splitting -/

variable {cs piece : List α}

section Split

variable [DecidableEq α] (sep)

/-- The pieces between separators. -/
def split : List α → List (List α)
  | [] => [[]]
  | c :: cs =>
    if c = sep then [] :: split cs
    else
      match split cs with
      | [] => [[c]]
      | piece :: pieces => (c :: piece) :: pieces

theorem split_ne_nil (cs : List α) : split sep cs ≠ [] := by
  cases cs with
  | nil => simp [split]
  | cons c cs =>
    rw [split]
    split
    · simp
    · split <;> simp

theorem join_split (cs : List α) : join sep (split sep cs) = sep :: cs := by
  induction cs with
  | nil => rfl
  | cons c cs ih =>
    rw [split]
    split
    · rename_i hc
      rw [join_cons, ih, hc, List.nil_append]
    · split
      · rename_i hnil
        exact absurd hnil (split_ne_nil sep cs)
      · rename_i piece pieces hcons
        rw [hcons, join_cons, List.cons.injEq] at ih
        rw [join_cons, List.cons_append, ih.2]

theorem notMem_of_mem_split (h : piece ∈ split sep cs) : sep ∉ piece := by
  induction cs generalizing piece with
  | nil =>
    rw [split, List.mem_singleton] at h
    simp [h]
  | cons c cs ih =>
    rw [split] at h
    split at h
    · rcases List.mem_cons.mp h with rfl | h
      · simp
      · exact ih h
    · rename_i hc
      split at h
      · rename_i hnil
        exact absurd hnil (split_ne_nil sep cs)
      · rename_i first pieces hcons
        rcases List.mem_cons.mp h with rfl | h
        · rw [List.mem_cons, not_or]
          exact ⟨fun heq => hc heq.symm, ih (hcons ▸ List.mem_cons_self)⟩
        · exact ih (hcons ▸ List.mem_cons_of_mem _ h)

theorem split_eq_of_join {pieces : List (List α)} (hp : ∀ p ∈ pieces, sep ∉ p)
    (h : sep :: cs = join sep pieces) :
    split sep cs = pieces :=
  join_inj (fun _ hmem => notMem_of_mem_split sep hmem) hp ((join_split sep cs).trans h)

theorem split_of_notMem (h : sep ∉ piece) : split sep piece = [piece] :=
  split_eq_of_join sep (by simpa using h) (by simp [join])

theorem split_append_cons (h : sep ∉ piece) (cs : List α) :
    split sep (piece ++ sep :: cs) = piece :: split sep cs := by
  refine split_eq_of_join sep (fun p hp => ?_) ?_
  · rcases List.mem_cons.mp hp with rfl | hp
    · exact h
    · exact notMem_of_mem_split sep hp
  · rw [join_cons, join_split]

/-- **The pieces, each closed by a separator**, are the list and a last separator. -/
theorem flatMap_split (cs : List α) : (split sep cs).flatMap (· ++ [sep]) = cs ++ [sep] := by
  have shift (ps : List (List α)) : join sep ps ++ [sep] = sep :: ps.flatMap (· ++ [sep]) := by
    induction ps with
    | nil => rfl
    | cons p ps ih => simp [join_cons, ih]
  have h := shift (split sep cs)
  rw [join_split] at h
  exact (List.cons.inj h).2.symm

theorem mem_of_mem_split (h : piece ∈ split sep cs) {c : α} (hc : c ∈ piece) : c ∈ cs := by
  have hm : c ∈ (split sep cs).flatMap (· ++ [sep]) :=
    List.mem_flatMap.mpr ⟨piece, h, List.mem_append_left _ hc⟩
  rw [flatMap_split, List.mem_append, List.mem_singleton] at hm
  rcases hm with hm | rfl
  · exact hm
  · exact absurd hc (notMem_of_mem_split c h)

end Split

end BitRouter.Delimited
