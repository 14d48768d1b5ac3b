import BitRouter.Registry.Value
import Mathlib.Data.Rat.Defs
import Mathlib.Algebra.Order.Field.Rat
import Mathlib.Tactic

/-!
# Registry errors and exact decimals

`RegistryError` of `document.rs`, and `pricing::decimal`, which reads the
text of a number as an exact rational: an optional minus sign, digits, an
optional fraction and an optional exponent, each part bounded before any
large integer is built. A negative number is refused, a negative zero is
not.
-/

namespace BitRouter.Registry

/-- A diagnostic: a stable code, the path of the field, what failed and
what to do about it. -/
structure RegistryError where
  code : String
  path : String
  message : String
  recovery : String
  deriving DecidableEq, Repr

namespace RegistryError

def invalid (path message : String) : RegistryError where
  code := "registry.invalid_data"
  path := path
  message := message
  recovery := "Repair the registry source or select a valid registry snapshot"

end RegistryError

/-- The error of a charge that cannot be established. -/
def unavailable (message : String) : RegistryError where
  code := "registry.pricing_unavailable"
  path := "/pricing"
  message := message
  recovery := "Provide verified applicable rates and codec counters, or upgrade to software " ++
    "supporting this tariff"

/-- The value of a run of decimal digits. -/
def digitsValue (digits : List Char) : ℕ :=
  digits.foldl (fun n c => 10 * n + (c.toNat - 48)) 0

/-- `str::parse::<i32>`: an optional sign and at least one digit, in range. -/
def parseI32 (chars : List Char) : Option ℤ :=
  let negative := chars.head? = some '-'
  let digits := if chars.head? = some '-' ∨ chars.head? = some '+' then chars.tail else chars
  if digits.isEmpty ∨ ¬ digits.all Char.isDigit then none
  else
    let n : ℤ := if negative then -(digitsValue digits : ℤ) else digitsValue digits
    if -2 ^ 31 ≤ n ∧ n < 2 ^ 31 then some n else none

/-- The mantissa and the exponent of an unsigned number, split at the first
`e` or `E`. -/
def splitExponent (unsigned : List Char) : Except RegistryError (List Char × ℤ) :=
  let base := unsigned.takeWhile (fun c => c ≠ 'e' ∧ c ≠ 'E')
  match unsigned.dropWhile (fun c => c ≠ 'e' ∧ c ≠ 'E') with
  | [] => .ok (base, 0)
  | _ :: exponent => do
    let e ← orFail (parseI32 exponent) (unavailable "Invalid decimal exponent")
    return (base, e)

/-- Whether one side of a decimal point is a nonempty run of digits. -/
def isDigits (part : List Char) : Prop := part ≠ [] ∧ part.all Char.isDigit

instance (part : List Char) : Decidable (isDigits part) := inferInstanceAs (Decidable (_ ∧ _))

/-- **The exact value of a nonnegative decimal.** -/
def decimal (value : String) : Except RegistryError ℚ := do
  ensure (value ≠ "" ∧ value.utf8ByteSize ≤ 128) (unavailable "Invalid or excessive decimal")
  let chars := value.toList
  let negative := chars.head? = some '-'
  let unsigned := if chars.head? = some '-' then chars.tail else chars
  let (mantissa, exponent) ← splitExponent unsigned
  ensure (exponent.natAbs ≤ 308) (unavailable "Decimal exponent exceeds supported bounds")
  let parts := mantissa.splitOn '.'
  ensure (parts.length ≤ 2 ∧ ∀ part ∈ parts, isDigits part)
    (unavailable "Expected a nonnegative decimal")
  let fraction : ℤ := ((parts[1]?).map List.length).getD 0
  let number := digitsValue parts.flatten
  ensure (¬ (negative ∧ number ≠ 0)) (unavailable "Expected a nonnegative decimal")
  let scale := fraction - exponent
  if 0 ≤ scale then return (number : ℚ) / 10 ^ scale.toNat
  else return (number : ℚ) * 10 ^ (-scale).toNat

/-- **A decimal is never negative.** -/
theorem decimal_nonneg {value : String} {q : ℚ} (h : decimal value = .ok q) : 0 ≤ q := by
  obtain ⟨-, -, h⟩ := bind_eq_ok.mp h
  obtain ⟨⟨mantissa, exponent⟩, -, h⟩ := bind_eq_ok.mp h
  obtain ⟨-, -, h⟩ := bind_eq_ok.mp h
  obtain ⟨-, -, h⟩ := bind_eq_ok.mp h
  obtain ⟨-, -, h⟩ := bind_eq_ok.mp h
  dsimp only at h
  split at h
  · rw [← pure_eq_ok.mp h]
    positivity
  · rw [← pure_eq_ok.mp h]
    positivity

example : decimal "12.5e-1" = .ok (5 / 4) := by decide +kernel

end BitRouter.Registry
