import Mathlib.Data.List.Basic
import Mathlib.Tactic.Common

/-!
# Successful computations in `Except`

How a computation that may fail is taken apart once it is known to have
succeeded: a sequence succeeds exactly when both of its parts do, a check
when its condition holds, a loop when every round does.
-/

namespace BitRouter

universe u v

variable {ε : Type u} {α β σ : Type v}

/-- Fail with `e` unless `c` holds. -/
def ensure (c : Prop) [Decidable c] (e : ε) : Except ε Unit :=
  if c then .ok () else .error e

/-- The value of an option, or the failure `e`. -/
def orFail (o : Option α) (e : ε) : Except ε α :=
  match o with
  | some a => .ok a
  | none => .error e

variable {f : α → Except ε β} {x : Except ε α}

theorem bind_eq_ok {b : β} :
    (x >>= f) = .ok b ↔ ∃ a, x = .ok a ∧ f a = .ok b := by
  cases x with
  | error e => simp [bind, Except.bind]
  | ok a => simp [bind, Except.bind]

theorem map_eq_ok {f : α → β} {b : β} :
    x.map f = .ok b ↔ ∃ a, x = .ok a ∧ f a = b := by
  cases x with
  | error e => simp [Except.map]
  | ok a => simp [Except.map]

variable {a : α}

theorem mapError_eq_ok {ε' : Type*} {f : ε → ε'} :
    x.mapError f = .ok a ↔ x = .ok a := by
  cases x with
  | error e => simp [Except.mapError]
  | ok a => simp [Except.mapError]

theorem toOption_eq_some : x.toOption = some a ↔ x = .ok a := by
  cases x with
  | error e => simp [Except.toOption]
  | ok a => simp [Except.toOption]

@[simp] theorem ensure_eq_ok {c : Prop} [Decidable c] {e : ε} {u : Unit} :
    ensure c e = .ok u ↔ c := by
  unfold ensure
  split <;> simp [*]

@[simp] theorem orFail_eq_ok {o : Option α} {e : ε} :
    orFail o e = .ok a ↔ o = some a := by
  cases o <;> simp [orFail]

@[simp] theorem pure_eq_ok {b : α} : (pure a : Except ε α) = .ok b ↔ a = b := by
  simp [pure, Except.pure]

/-- **A loop of checks succeeds exactly when every check does.** -/
theorem forM_eq_ok {α : Type*} {f : α → Except ε Unit} {xs : List α} {u : Unit} :
    xs.forM f = .ok u ↔ ∀ x ∈ xs, f x = .ok () := by
  induction xs with
  | nil => simp [pure, Except.pure]
  | cons x xs ih =>
    rw [List.forM_eq_forM, List.forM_cons, bind_eq_ok]
    constructor
    · rintro ⟨a, hx, hxs⟩
      exact List.forall_mem_cons.mpr ⟨hx, ih.mp hxs⟩
    · intro h
      obtain ⟨hx, hxs⟩ := List.forall_mem_cons.mp h
      exact ⟨(), hx, ih.mpr hxs⟩

theorem exists_ok_of_isOk (h : x.isOk = true) : ∃ a, x = .ok a := by
  cases x with
  | ok a => exact ⟨a, rfl⟩
  | error e => exact absurd h (by simp [Except.isOk, Except.toBool])

theorem exists_ok_of_any {test : α → Bool} (h : x.toOption.any test = true) :
    ∃ a, x = .ok a ∧ test a = true := by
  cases x with
  | ok a => exact ⟨a, rfl, h⟩
  | error e => exact absurd h (by simp [Except.toOption])

variable {xs : List α}

/-- **What every round of a loop preserves, the loop preserves.** -/
theorem foldlM_ok_preserves {f : σ → α → Except ε σ} {P : σ → Prop}
    (hf : ∀ s x s', x ∈ xs → P s → f s x = .ok s' → P s') {s s' : σ} (hs : P s)
    (h : xs.foldlM f s = .ok s') : P s' := by
  induction xs generalizing s with
  | nil =>
    rw [List.foldlM_nil, pure_eq_ok] at h
    exact h ▸ hs
  | cons x xs ih =>
    rw [List.foldlM_cons, bind_eq_ok] at h
    obtain ⟨t, ht, hrest⟩ := h
    exact ih (fun s x s' hx => hf s x s' (List.mem_cons_of_mem _ hx))
      (hf s x t List.mem_cons_self hs ht) hrest

variable {ys : List β}

/-- A list of results succeeds exactly when each of them does. -/
theorem mapM_eq_ok :
    xs.mapM f = .ok ys ↔ List.Forall₂ (fun x y => f x = .ok y) xs ys := by
  induction xs generalizing ys with
  | nil =>
    rw [List.mapM_nil, pure_eq_ok]
    constructor
    · rintro rfl
      exact List.Forall₂.nil
    · intro h
      cases h
      rfl
  | cons x xs ih =>
    rw [List.mapM_cons, bind_eq_ok]
    constructor
    · rintro ⟨y, hy, h⟩
      obtain ⟨ys', hys, hcons⟩ := bind_eq_ok.mp h
      obtain rfl := pure_eq_ok.mp hcons
      exact List.Forall₂.cons hy (ih.mp hys)
    · intro h
      cases h with
      | cons hy hys =>
        exact ⟨_, hy, bind_eq_ok.mpr ⟨_, ih.mpr hys, rfl⟩⟩

/-- The result of each member is among the results. -/
theorem mem_of_mapM_ok (h : xs.mapM f = .ok ys) {x : α} (hx : x ∈ xs) {y : β} (hy : f x = .ok y) :
    y ∈ ys := by
  have hall := mapM_eq_ok.mp h
  clear h
  induction hall with
  | nil => exact absurd hx List.not_mem_nil
  | cons hfirst _ ih =>
    rcases List.mem_cons.mp hx with rfl | hx
    · rw [Except.ok.inj (hy.symm.trans hfirst)]
      exact List.mem_cons_self
    · exact List.mem_cons_of_mem _ (ih hx)

/-- What a `mapM` has made was made of an element. -/
theorem exists_of_mem_mapM {y : β} (h : xs.mapM f = .ok ys) (hy : y ∈ ys) :
    ∃ x ∈ xs, f x = .ok y := by
  have hall := mapM_eq_ok.mp h
  clear h
  induction hall with
  | nil => exact absurd hy List.not_mem_nil
  | @cons x _ _ _ hfirst _ ih =>
    rcases List.mem_cons.mp hy with rfl | hy
    · exact ⟨x, List.mem_cons_self, hfirst⟩
    · obtain ⟨x', hx', heq⟩ := ih hy
      exact ⟨x', List.mem_cons_of_mem x hx', heq⟩

theorem mapM_eq_some {f : α → Option β} :
    xs.mapM f = some ys ↔ xs.map f = ys.map some := by
  induction xs generalizing ys with
  | nil =>
    rw [List.mapM_nil, List.map_nil, eq_comm (a := []), List.map_eq_nil_iff]
    exact ⟨fun h => (Option.some.inj h).symm, fun h => congrArg some h.symm⟩
  | cons x xs ih =>
    rw [List.mapM_cons, Option.bind_eq_bind, Option.bind_eq_some_iff]
    constructor
    · rintro ⟨y, hy, h⟩
      obtain ⟨ys', hys, hcons⟩ := Option.bind_eq_some_iff.mp h
      obtain rfl := Option.some.inj hcons
      rw [List.map_cons, List.map_cons, hy, ih.mp hys]
    · intro h
      cases ys with
      | nil => exact absurd h (by simp)
      | cons y ys =>
        rw [List.map_cons, List.map_cons, List.cons.injEq] at h
        exact ⟨y, h.1, Option.bind_eq_some_iff.mpr ⟨ys, ih.mpr h.2, rfl⟩⟩

end BitRouter
