import BitRouter.Data.Result
import Mathlib.Algebra.Order.Ring.Int

/-!
# Committed records of the shared gateway

Every record of the shared gateway carries a revision, a status and a due
time beside its body. A transaction reads a record under its row lock and
writes it back through `save`, which advances the revision and refuses a body
over the size limit. A transaction that fails commits nothing, so an operation
is modelled as a function of the committed record into `Except`.

Whether the encoding of a body is within the limit is a parameter `fits`.
-/

namespace BitRouter.Shared

/-- Why a transaction failed. -/
inductive Failure
  | unauthorized
  | forbidden
  | quota
  | idempotencyConflict
  | authorityChanged
  | unavailable
  | notFound
  | context (text : String)
deriving DecidableEq, Repr

/-- The `i64` range of clocks and revisions. -/
def i64Max : ℤ := 2 ^ 63 - 1

/-- `i64::checked_add`, for a nonnegative right operand. -/
def checkedAddI64 (a b : ℤ) : Option ℤ := if a + b ≤ i64Max then some (a + b) else none

theorem checkedAddI64_eq_some {a b c : ℤ} :
    checkedAddI64 a b = some c ↔ a + b ≤ i64Max ∧ a + b = c := by
  rw [checkedAddI64, Option.ite_none_right_eq_some, Option.some_inj]

/-- A committed record. -/
structure Stored (α : Type) where
  value : α
  revision : ℕ
  status : String
  dueAtMs : Option ℤ
  updatedAtMs : ℤ
deriving DecidableEq, Repr

variable {α : Type}

/-- Write a record back. -/
def save (fits : α → Bool) (stored : Stored α) (value : α) (status : String)
    (dueAtMs : Option ℤ) (nowMs : ℤ) : Except Failure (Stored α) := do
  ensure ((stored.revision : ℤ) + 1 ≤ i64Max) (.context "shared gateway revision exhausted")
  ensure (fits value) (.context "encoding bounded shared record")
  return { value, revision := stored.revision + 1, status, dueAtMs, updatedAtMs := nowMs }

theorem save_eq_ok {fits : α → Bool} {stored saved : Stored α} {value : α} {status : String}
    {dueAtMs : Option ℤ} {nowMs : ℤ} :
    save fits stored value status dueAtMs nowMs = .ok saved ↔
      (stored.revision : ℤ) + 1 ≤ i64Max ∧ fits value = true
        ∧ { value, revision := stored.revision + 1, status, dueAtMs, updatedAtMs := nowMs }
          = saved := by
  constructor
  · intro h
    obtain ⟨_, hrevision, h⟩ := bind_eq_ok.mp h
    obtain ⟨_, hfits, h⟩ := bind_eq_ok.mp h
    exact ⟨ensure_eq_ok.mp hrevision, ensure_eq_ok.mp hfits, pure_eq_ok.mp h⟩
  · rintro ⟨hrevision, hfits, hsaved⟩
    exact bind_eq_ok.mpr ⟨(), ensure_eq_ok.mpr hrevision,
      bind_eq_ok.mpr ⟨(), ensure_eq_ok.mpr hfits, pure_eq_ok.mpr hsaved⟩⟩

end BitRouter.Shared
