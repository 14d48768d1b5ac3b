import BitRouter.Data.Utf8
import BitRouter.Registry.Normalize

/-!
# Decimal texts

What `pricing::decimal` reads and `mapping::number` writes. A `Numeral` is the
grammar of an exact decimal: digits, a fraction, an exponent of at most 308, and
a sign that only zero may bear. A text is read exactly when it spells a numeral
within 128 bytes, as the number it denotes (`decimal_eq_ok`).

Writing divides with remainder, one digit a step, and so writes the shortest
spelling without an exponent: it fails only where none fits (`number_eq_ok`).
-/

namespace BitRouter.Registry

/-! ## Digits -/

variable {xs ys digits : List Char} {c : Char}

theorem digitsValue_append (xs ys : List Char) :
    digitsValue (xs ++ ys) = digitsValue xs * 10 ^ ys.length + digitsValue ys := by
  show Nat.ofDigitChars 10 (xs ++ ys) 0 = _
  rw [Nat.ofDigitChars_append, Nat.ofDigitChars_eq_ofDigitChars_zero, mul_comm]
  rfl

theorem digitsValue_lt (h : xs.all Char.isDigit = true) : digitsValue xs < 10 ^ xs.length := by
  induction xs using List.reverseRecOn with
  | nil => decide
  | append_singleton xs c ih =>
    rw [List.all_append, Bool.and_eq_true] at h
    have hc : c.toNat - 48 < 10 := by
      have hdigit : c.isDigit = true := List.all_eq_true.mp h.2 c List.mem_cons_self
      rw [Char.isDigit, Bool.and_eq_true, decide_eq_true_iff, decide_eq_true_iff] at hdigit
      have hle : c.toNat ≤ 57 := UInt32.le_iff_toNat_le.mp hdigit.2
      omega
    have hxs := ih h.1
    rw [digitsValue_append, List.length_append]
    show digitsValue xs * 10 + (10 * 0 + (c.toNat - 48)) < 10 ^ (xs.length + 1)
    omega

theorem ne_of_isDigits {d : Char} (h : xs.all Char.isDigit = true) (hd : d.isDigit = false)
    (hc : c ∈ xs) : c ≠ d := by
  rintro rfl
  have := List.all_eq_true.mp h c hc
  rw [hd] at this
  cases this

theorem isDigits_repr (n : ℕ) : isDigits (Nat.repr n).toList := by
  rw [Nat.toList_repr]
  refine ⟨Nat.toDigits_ne_nil, List.all_eq_true.mpr fun c hc => ?_⟩
  exact Nat.isDigit_of_mem_toDigits (by decide) (by decide) hc

@[simp] theorem digitsValue_repr (n : ℕ) : digitsValue (Nat.repr n).toList = n := by
  rw [Nat.toList_repr]
  exact Nat.ofDigitChars_ten_toDigits

/-! ## The grammar -/

/-- An exponent of at most 308, as it is spelled. -/
structure Exponent where
  marker : Char
  sign : Option Char
  digits : List Char

namespace Exponent

def text (e : Exponent) : List Char := e.marker :: (e.sign.toList ++ e.digits)

def value (e : Exponent) : ℤ :=
  if e.sign = some '-' then -(digitsValue e.digits : ℤ) else digitsValue e.digits

structure Valid (e : Exponent) : Prop where
  marker : e.marker = 'e' ∨ e.marker = 'E'
  sign : ∀ c ∈ e.sign, c = '+' ∨ c = '-'
  digits : isDigits e.digits
  bound : e.value.natAbs ≤ 308

end Exponent

/-- **A decimal as it is spelled.** -/
structure Numeral where
  negative : Bool := false
  whole : List Char
  fraction : Option (List Char) := none
  exponent : Option Exponent := none

namespace Numeral

def mantissa (n : Numeral) : List Char := n.whole ++ (n.fraction.map ('.' :: ·)).getD []

def text (n : Numeral) : List Char :=
  (if n.negative then ['-'] else []) ++ (n.mantissa ++ (n.exponent.map Exponent.text).getD [])

/-- The number without its sign. -/
def magnitude (n : Numeral) : ℚ :=
  (digitsValue n.whole
    + (digitsValue (n.fraction.getD []) : ℚ) / 10 ^ (n.fraction.getD []).length)
    * 10 ^ (n.exponent.map Exponent.value).getD 0

/-- **The number a spelling denotes.** -/
def value (n : Numeral) : ℚ := if n.negative then -n.magnitude else n.magnitude

/-- **The grammar of an exact decimal.** Only zero bears a sign. -/
structure Valid (n : Numeral) : Prop where
  whole : isDigits n.whole
  fraction : ∀ f ∈ n.fraction, isDigits f
  exponent : ∀ e ∈ n.exponent, e.Valid
  sign : n.negative = true → n.magnitude = 0

end Numeral

/-! ## Reading -/

theorem parseI32_append {sign : Option Char} (hsign : ∀ c ∈ sign, c = '+' ∨ c = '-')
    (hdigits : sign = none → xs.head? ≠ some '-' ∧ xs.head? ≠ some '+') :
    parseI32 (sign.toList ++ xs) =
      if isDigits xs then
        let n := (Exponent.mk 'e' sign xs).value
        if -2 ^ 31 ≤ n ∧ n < 2 ^ 31 then some n else none
      else none := by
  have hvalue : (isDigits xs) = ¬ (xs.isEmpty = true ∨ ¬ xs.all Char.isDigit = true) := by
    rw [not_or, not_not, List.isEmpty_iff]
    rfl
  unfold parseI32 Exponent.value
  rw [← ite_not]
  simp only [hvalue]
  cases sign with
  | none =>
    obtain ⟨hminus, hplus⟩ := hdigits rfl
    simp [hminus, hplus]
  | some c =>
    rcases hsign c rfl with rfl | rfl
    · simp
    · simp

theorem head?_of_isDigits {d : Char} (h : isDigits xs) (hd : d.isDigit = false) :
    xs.head? ≠ some d := fun hhead =>
  ne_of_isDigits h.2 hd (List.mem_of_mem_head? hhead) rfl

theorem parseI32_eq_some {e : ℤ} : parseI32 xs = some e ↔ ∃ (sign : Option Char)
    (digits : List Char), xs = sign.toList ++ digits ∧ (∀ c ∈ sign, c = '+' ∨ c = '-')
      ∧ isDigits digits ∧ (Exponent.mk 'e' sign digits).value = e ∧ -2 ^ 31 ≤ e ∧ e < 2 ^ 31 := by
  constructor
  · intro h
    obtain ⟨sign, digits, rfl, hsign, hdigits⟩ : ∃ (sign : Option Char) (digits : List Char),
        xs = sign.toList ++ digits ∧ (∀ c ∈ sign, c = '+' ∨ c = '-')
          ∧ (sign = none → digits.head? ≠ some '-' ∧ digits.head? ≠ some '+') := by
      by_cases hhead : xs.head? = some '-' ∨ xs.head? = some '+'
      · cases xs with
        | nil => simp at hhead
        | cons c cs => exact ⟨some c, cs, rfl, by simpa [or_comm] using hhead, by simp⟩
      · exact ⟨none, xs, rfl, by simp, fun _ => not_or.mp hhead⟩
    rw [parseI32_append hsign hdigits] at h
    split at h
    · next hvalid =>
      dsimp only at h
      split at h
      · next hrange =>
        obtain rfl := Option.some.inj h
        exact ⟨sign, digits, rfl, hsign, hvalid, rfl, hrange⟩
      · cases h
    · cases h
  · rintro ⟨sign, digits, rfl, hsign, hdigits, rfl, hrange⟩
    rw [parseI32_append hsign fun _ =>
        ⟨head?_of_isDigits hdigits (by decide), head?_of_isDigits hdigits (by decide)⟩,
      if_pos hdigits]
    exact if_pos hrange

/-- **The split of a number at its exponent**, where the exponent is in bounds. -/
theorem splitExponent_eq_ok {mantissa : List Char} {e : ℤ} :
    (splitExponent xs = .ok (mantissa, e) ∧ e.natAbs ≤ 308) ↔ ∃ exponent : Option Exponent,
      (∀ x ∈ exponent, x.Valid) ∧ xs = mantissa ++ (exponent.map Exponent.text).getD []
        ∧ (∀ c ∈ mantissa, c ≠ 'e' ∧ c ≠ 'E') ∧ e = (exponent.map Exponent.value).getD 0 := by
  constructor
  · rintro ⟨h, hbound⟩
    unfold splitExponent at h
    have hxs := List.takeWhile_append_dropWhile (p := fun c => decide (c ≠ 'e' ∧ c ≠ 'E')) (l := xs)
    have hbase : ∀ c ∈ xs.takeWhile (fun c => c ≠ 'e' ∧ c ≠ 'E'), c ≠ 'e' ∧ c ≠ 'E' := by
      have hall := List.all_takeWhile (l := xs) (p := fun c => decide (c ≠ 'e' ∧ c ≠ 'E'))
      exact fun c hc => of_decide_eq_true (List.all_eq_true.mp hall c hc)
    split at h
    · next hnone =>
      obtain ⟨rfl, rfl⟩ := Prod.mk.inj (Except.ok.inj h)
      refine ⟨none, by simp, ?_, hbase, rfl⟩
      rw [hnone] at hxs
      exact hxs.symm
    · next marker exponent hsome =>
      obtain ⟨n, hn, h⟩ := bind_eq_ok.mp h
      obtain ⟨rfl, rfl⟩ := Prod.mk.inj (pure_eq_ok.mp h)
      obtain ⟨sign, digits, rfl, hsign, hdigits, rfl, -⟩ :=
        parseI32_eq_some.mp (orFail_eq_ok.mp hn)
      have hmarker : marker = 'e' ∨ marker = 'E' := by
        have hhead := List.head?_dropWhile_not (fun c => decide (c ≠ 'e' ∧ c ≠ 'E')) xs
        rw [hsome] at hhead
        simpa [or_iff_not_imp_left] using hhead
      refine ⟨some ⟨marker, sign, digits⟩, ?_, ?_, hbase, rfl⟩
      · rintro x ⟨⟩
        exact ⟨hmarker, hsign, hdigits, hbound⟩
      · rw [hsome] at hxs
        exact hxs.symm
  · rintro ⟨exponent, hvalid, rfl, hmantissa, rfl⟩
    have htake : ∀ c ∈ mantissa, decide (c ≠ 'e' ∧ c ≠ 'E') = true :=
      fun c hc => decide_eq_true (hmantissa c hc)
    unfold splitExponent
    rw [List.takeWhile_append_of_pos htake, List.dropWhile_append_of_pos htake]
    cases exponent with
    | none => simp
    | some x =>
      have hx := hvalid x rfl
      have hstop : ¬ (x.marker ≠ 'e' ∧ x.marker ≠ 'E') := by
        simpa [or_iff_not_imp_left] using hx.marker
      have hn : parseI32 (x.sign.toList ++ x.digits) = some x.value :=
        parseI32_eq_some.mpr ⟨x.sign, x.digits, rfl, hx.sign, hx.digits, rfl, by
          have hbound := hx.bound
          omega⟩
      refine ⟨?_, hx.bound⟩
      simp only [Option.map_some, Option.getD_some, Exponent.text]
      rw [List.dropWhile_cons_of_neg (by simpa using hstop),
        List.takeWhile_cons_of_neg (by simpa using hstop)]
      dsimp only
      rw [hn, List.append_nil]
      rfl

/-- The sides of a decimal point. -/
theorem splitOn_eq_iff {parts : List (List Char)} :
    (xs.splitOn '.' = parts ∧ parts.length ≤ 2 ∧ ∀ part ∈ parts, isDigits part) ↔
      ∃ whole fraction, parts = whole :: Option.toList fraction ∧ isDigits whole
        ∧ (∀ f ∈ fraction, isDigits f) ∧ xs = whole ++ (fraction.map ('.' :: ·)).getD [] := by
  constructor
  · rintro ⟨rfl, hlength, hdigits⟩
    have hxs : ['.'].intercalate (xs.splitOn '.') = xs := List.intercalate_splitOn '.'
    have hparts : xs.splitOn '.' ≠ [] := List.splitOn_ne_nil '.' xs
    generalize xs.splitOn '.' = parts at *
    match parts with
    | [] => exact absurd hparts (by simp)
    | [whole] =>
      exact ⟨whole, none, rfl, hdigits _ List.mem_cons_self, by simp, by simpa using hxs.symm⟩
    | [whole, f] =>
      refine ⟨whole, some f, rfl, hdigits _ List.mem_cons_self, ?_, ?_⟩
      · rintro x ⟨⟩
        exact hdigits f (by simp)
      · simpa using hxs.symm
    | _ :: _ :: _ :: _ => simp at hlength
  · rintro ⟨whole, fraction, rfl, hwhole, hfraction, rfl⟩
    have hpoint (part : List Char) (hpart : isDigits part) : '.' ∉ part := fun hmem =>
      ne_of_isDigits hpart.2 (by decide) hmem rfl
    have hmem : ∀ part ∈ whole :: fraction.toList, isDigits part :=
      List.forall_mem_cons.mpr ⟨hwhole, fun f hf => hfraction f (Option.mem_toList.mp hf)⟩
    refine ⟨?_, by cases fraction <;> simp, hmem⟩
    have hsplit := List.splitOn_intercalate '.' (fun part hp => hpoint part (hmem part hp))
      (List.cons_ne_nil whole fraction.toList)
    cases fraction <;> simpa using hsplit

namespace Numeral

variable {n : Numeral}

theorem magnitude_eq (n : Numeral) : n.magnitude =
    digitsValue (n.whole ++ n.fraction.getD [])
      * 10 ^ ((n.exponent.map Exponent.value).getD 0 - (n.fraction.getD []).length : ℤ) := by
  rw [magnitude, digitsValue_append, zpow_sub₀ (by norm_num), zpow_natCast]
  push_cast
  field_simp

theorem magnitude_eq_zero :
    n.magnitude = 0 ↔ digitsValue (n.whole ++ n.fraction.getD []) = 0 := by
  rw [magnitude_eq, mul_eq_zero, Nat.cast_eq_zero]
  exact or_iff_left (zpow_ne_zero _ (by norm_num))

theorem Valid.value_eq (h : n.Valid) : n.value = n.magnitude := by
  unfold value
  split
  · next hsign => rw [h.sign hsign, neg_zero]
  · rfl

end Numeral

theorem mantissa_ne {n : Numeral} (h : n.Valid) : ∀ c ∈ n.mantissa, c ≠ 'e' ∧ c ≠ 'E' := by
  have hdigits (xs : List Char) (hxs : isDigits xs) (c : Char) (hc : c ∈ xs) :
      c ≠ 'e' ∧ c ≠ 'E' :=
    ⟨ne_of_isDigits hxs.2 (by decide) hc, ne_of_isDigits hxs.2 (by decide) hc⟩
  intro c hc
  rcases List.mem_append.mp hc with hc | hc
  · exact hdigits _ h.whole c hc
  · cases hf : n.fraction with
    | none =>
      rw [hf] at hc
      cases hc
    | some f =>
      rw [hf] at hc
      rcases List.mem_cons.mp hc with rfl | hc
      · decide
      · exact hdigits f (h.fraction f hf) c hc

theorem head?_mantissa {n : Numeral} (h : n.Valid) (rest : List Char) :
    (n.mantissa ++ rest).head? ≠ some '-' := by
  obtain ⟨hne, hdigits⟩ := h.whole
  cases hwhole : n.whole with
  | nil => exact absurd hwhole hne
  | cons c cs =>
    intro hhead
    have hc : c = '-' := by simpa [Numeral.mantissa, hwhole] using hhead
    exact ne_of_isDigits hdigits (by decide) (hwhole ▸ List.mem_cons_self) hc

theorem flatten_sides (whole : List Char) (fraction : Option (List Char)) :
    (whole :: fraction.toList).flatten = whole ++ fraction.getD [] := by
  cases fraction <;> simp

theorem length_sides (whole : List Char) (fraction : Option (List Char)) :
    (((whole :: fraction.toList)[1]?).map List.length).getD 0 = (fraction.getD []).length := by
  cases fraction <;> simp

/-- A scale divides or multiplies. -/
theorem scale_eq_ok (m : ℕ) (scale : ℤ) {q : ℚ} :
    (if 0 ≤ scale then pure ((m : ℚ) / 10 ^ scale.toNat)
      else pure ((m : ℚ) * 10 ^ (-scale).toNat) : Except RegistryError ℚ) = .ok q
      ↔ (m : ℚ) * 10 ^ (-scale) = q := by
  split
  · next h =>
    obtain ⟨k, rfl⟩ := Int.eq_ofNat_of_zero_le h
    rw [pure_eq_ok, zpow_neg, zpow_natCast, Int.toNat_natCast, div_eq_mul_inv]
  · next h =>
    obtain ⟨k, hk⟩ := Int.eq_ofNat_of_zero_le (a := -scale) (by omega)
    rw [pure_eq_ok, hk, zpow_natCast, Int.toNat_natCast]

/-- A text is its sign and what follows it. -/
theorem sign_append (xs : List Char) (c : Char) :
    (if decide (xs.head? = some c) then [c] else [])
      ++ (if xs.head? = some c then xs.tail else xs) = xs := by
  cases xs with
  | nil => simp
  | cons x xs =>
    by_cases h : x = c
    · simp [h]
    · simp [h]

/-- **What a text is read as**: the number it spells. -/
theorem decimal_eq_ok {s : String} {q : ℚ} : decimal s = .ok q ↔
    (1 ≤ s.utf8ByteSize ∧ s.utf8ByteSize ≤ 128) ∧
      ∃ n : Numeral, n.Valid ∧ s.toList = n.text ∧ n.value = q := by
  have hsize : s ≠ "" ↔ 1 ≤ s.utf8ByteSize := by
    rw [Nat.one_le_iff_ne_zero, ne_eq, ne_eq, String.utf8ByteSize_eq_zero_iff]
  constructor
  · intro h
    obtain ⟨_, hbounds, h⟩ := bind_eq_ok.mp h
    obtain ⟨⟨mantissa, e⟩, hsplit, h⟩ := bind_eq_ok.mp h
    obtain ⟨_, hbound, h⟩ := bind_eq_ok.mp h
    obtain ⟨_, hparts, h⟩ := bind_eq_ok.mp h
    obtain ⟨_, hsign, h⟩ := bind_eq_ok.mp h
    obtain ⟨exponent, hexponent, hunsigned, -, rfl⟩ :=
      splitExponent_eq_ok.mp ⟨hsplit, ensure_eq_ok.mp hbound⟩
    obtain ⟨whole, fraction, hsides, hwhole, hfraction, rfl⟩ :=
      splitOn_eq_iff.mp ⟨rfl, ensure_eq_ok.mp hparts⟩
    rw [hsides, flatten_sides] at hsign h
    rw [length_sides] at h
    have hvalue := (scale_eq_ok _ _).mp h
    rw [neg_sub] at hvalue
    have hsign := ensure_eq_ok.mp hsign
    let n : Numeral := ⟨s.toList.head? = some '-', whole, fraction, exponent⟩
    have hvalid : n.Valid := {
      whole := hwhole
      fraction := hfraction
      exponent := hexponent
      sign := fun hneg => by
        rw [Numeral.magnitude_eq_zero]
        by_contra hzero
        exact hsign ⟨of_decide_eq_true hneg, hzero⟩ }
    refine ⟨(ensure_eq_ok.mp hbounds).imp_left hsize.mp, n, hvalid, ?_, ?_⟩
    · rw [← sign_append s.toList '-', hunsigned]
      rfl
    · rw [hvalid.value_eq, Numeral.magnitude_eq]
      exact hvalue
  · rintro ⟨⟨hpos, hle⟩, n, hn, htext, rfl⟩
    have hhead := head?_mantissa hn ((n.exponent.map Exponent.text).getD [])
    have hnegative : s.toList.head? = some '-' ↔ n.negative = true := by
      rw [htext]
      cases hneg : n.negative with
      | true => simp [Numeral.text, hneg]
      | false => simpa [Numeral.text, hneg] using hhead
    have hunsigned : (if s.toList.head? = some '-' then s.toList.tail else s.toList)
        = n.mantissa ++ (n.exponent.map Exponent.text).getD [] := by
      rw [if_congr hnegative rfl rfl, htext]
      cases hneg : n.negative <;> simp [Numeral.text, hneg]
    obtain ⟨hsplit, hbound⟩ := splitExponent_eq_ok.mpr
      ⟨n.exponent, hn.exponent, hunsigned, mantissa_ne hn, rfl⟩
    obtain ⟨hsides, hparts⟩ : n.mantissa.splitOn '.' = n.whole :: n.fraction.toList ∧ _ :=
      splitOn_eq_iff.mpr ⟨n.whole, n.fraction, rfl, hn.whole, hn.fraction, rfl⟩
    refine bind_eq_ok.mpr ⟨(), ensure_eq_ok.mpr ⟨hsize.mpr hpos, hle⟩, ?_⟩
    refine bind_eq_ok.mpr ⟨_, hsplit, ?_⟩
    refine bind_eq_ok.mpr ⟨(), ensure_eq_ok.mpr hbound, ?_⟩
    refine bind_eq_ok.mpr ⟨(), ensure_eq_ok.mpr (hsides ▸ hparts), ?_⟩
    refine bind_eq_ok.mpr ⟨(), ensure_eq_ok.mpr ?_, ?_⟩
    · rw [hsides, flatten_sides, hnegative]
      rintro ⟨hneg, hne⟩
      exact hne (Numeral.magnitude_eq_zero.mp (hn.sign hneg))
    · rw [hsides, flatten_sides, length_sides]
      refine (scale_eq_ok _ _).mpr ?_
      rw [hn.value_eq, Numeral.magnitude_eq, neg_sub]

/-! ## Writing -/

namespace Mapping

theorem repr_digit {q : ℕ} (h : q < 10) : (Nat.repr q).toList = [q.digitChar] := by
  rw [Nat.toList_repr, Nat.toDigits_of_lt_base h]

/-- **One step of the long division.** -/
theorem fractionDigits_succ {n d : ℕ} (hn : n < d) (places : ℕ) :
    (fractionDigits (places + 1) n d).1.toList = (n * 10 / d).digitChar ::
      (if n * 10 % d = 0 then [] else (fractionDigits places (n * 10 % d) d).1.toList) ∧
    (fractionDigits (places + 1) n d).2 =
      if n * 10 % d = 0 then 0 else (fractionDigits places (n * 10 % d) d).2 := by
  have hdigit : n * 10 / d < 10 := by
    rw [Nat.div_lt_iff_lt_mul (by omega)]
    omega
  rw [fractionDigits]
  split
  · exact ⟨repr_digit hdigit, rfl⟩
  · exact ⟨by rw [String.toList_append, repr_digit hdigit]; rfl, rfl⟩

theorem digitsValue_digit {q : ℕ} (h : q < 10) (digits : List Char) :
    digitsValue (q.digitChar :: digits) = q * 10 ^ digits.length + digitsValue digits := by
  rw [← List.singleton_append, digitsValue_append, ← repr_digit h, digitsValue_repr]

theorem digit_lt {n d : ℕ} (hn : n < d) : n * 10 / d < 10 := by
  rw [Nat.div_lt_iff_lt_mul (by omega)]
  omega

theorem division_step (n d k : ℕ) :
    n * 10 ^ (k + 1) = n * 10 / d * 10 ^ k * d + n * 10 % d * 10 ^ k := by
  calc n * 10 ^ (k + 1) = n * 10 * 10 ^ k := by ring
    _ = (d * (n * 10 / d) + n * 10 % d) * 10 ^ k := by rw [Nat.div_add_mod]
    _ = n * 10 / d * 10 ^ k * d + n * 10 % d * 10 ^ k := by ring

/-- **The digits and what is left** make the fraction again. -/
theorem fractionDigits_value {n d : ℕ} (hn : n < d) (places : ℕ) :
    n * 10 ^ (fractionDigits places n d).1.toList.length
      = digitsValue (fractionDigits places n d).1.toList * d + (fractionDigits places n d).2 := by
  induction places generalizing n with
  | zero => simp [fractionDigits, digitsValue]
  | succ places ih =>
    obtain ⟨htext, hleft⟩ := fractionDigits_succ hn places
    rw [htext, hleft, digitsValue_digit (digit_lt hn), List.length_cons, division_step n d]
    split
    · next hzero => simp [digitsValue, hzero]
    · rw [ih (Nat.mod_lt (n * 10) (by omega : 0 < d)), add_mul, add_assoc]

theorem fractionDigits_digits {n d : ℕ} (hn : n < d) (places : ℕ) :
    (fractionDigits places n d).1.toList.all Char.isDigit = true := by
  induction places generalizing n with
  | zero => rfl
  | succ places ih =>
    rw [(fractionDigits_succ hn places).1, List.all_cons, Bool.and_eq_true]
    refine ⟨?_, ?_⟩
    · have hdigit := (isDigits_repr (n * 10 / d)).2
      rwa [repr_digit (digit_lt hn), List.all_cons, List.all_nil, Bool.and_true] at hdigit
    · split
      · rfl
      · exact ih (Nat.mod_lt _ (by omega))

/-- **A division that ends is followed to its end**, and not beyond. -/
theorem fractionDigits_ends {n d k : ℕ} (hn : n < d) (hk : 0 < k) (hends : d ∣ n * 10 ^ k)
    {places : ℕ} (hplaces : k ≤ places) :
    (fractionDigits places n d).2 = 0 ∧ (fractionDigits places n d).1.toList.length ≤ k := by
  induction places generalizing n k with
  | zero => omega
  | succ places ih =>
    obtain ⟨htext, hleft⟩ := fractionDigits_succ hn places
    rw [htext, hleft, List.length_cons]
    split
    · exact ⟨rfl, hk⟩
    · next hrest =>
      obtain ⟨k, rfl⟩ := Nat.exists_eq_succ_of_ne_zero hk.ne'
      have hdvd : d ∣ n * 10 % d * 10 ^ k := by
        rw [Nat.succ_eq_add_one, division_step n d] at hends
        exact (Nat.dvd_add_right (dvd_mul_left d _)).mp hends
      have hpos : 0 < k := by
        rcases Nat.eq_zero_or_pos k with rfl | hpos
        · rw [pow_zero, mul_one] at hdvd
          exact absurd (Nat.eq_zero_of_dvd_of_lt hdvd (Nat.mod_lt _ (by omega))) hrest
        · exact hpos
      obtain ⟨hzero, hlength⟩ := ih (Nat.mod_lt _ (by omega)) hpos hdvd (by omega)
      exact ⟨hzero, by omega⟩

variable {v : ℚ} {value : Value} {n : Numeral}

/-- The spelling without an exponent that is written. -/
def plain (whole : ℕ) (digits : List Char) : Numeral where
  whole := (Nat.repr whole).toList
  fraction := if digits = [] then none else some digits

theorem valid_plain (whole : ℕ) {digits : List Char} (h : digits.all Char.isDigit = true) :
    (plain whole digits).Valid where
  whole := isDigits_repr whole
  fraction f hf := by
    unfold plain at hf
    split at hf
    · cases hf
    · next hne =>
      obtain rfl := Option.some.inj hf
      exact ⟨hne, h⟩
  exponent _ he := nomatch he
  sign hneg := nomatch hneg

theorem value_plain (whole : ℕ) (digits : List Char) :
    (plain whole digits).value = whole + (digitsValue digits : ℚ) / 10 ^ digits.length := by
  show (plain whole digits).magnitude = _
  unfold plain Numeral.magnitude
  split
  · next hnil =>
    rw [hnil]
    simp only [Option.getD_none, Option.map_none, zpow_zero, mul_one, digitsValue_repr]
  · simp only [Option.getD_none, Option.getD_some, Option.map_none, zpow_zero, mul_one,
      digitsValue_repr]

theorem text_plain (whole : ℕ) (digits : List Char) : (plain whole digits).text
    = (Nat.repr whole).toList ++ if digits = [] then [] else '.' :: digits := by
  unfold plain Numeral.text Numeral.mantissa
  split <;> simp

theorem ascii_plain (whole : ℕ) {digits : List Char} (h : digits.all Char.isDigit = true) :
    ∀ c ∈ (plain whole digits).text, c.toNat < 128 := by
  have hdigit (c : Char) (hc : c.isDigit = true) : c.toNat < 128 := by
    rw [Char.isDigit, Bool.and_eq_true, decide_eq_true_iff, decide_eq_true_iff] at hc
    have hle : c.toNat ≤ 57 := UInt32.le_iff_toNat_le.mp hc.2
    omega
  intro c hc
  rw [text_plain] at hc
  rcases List.mem_append.mp hc with hc | hc
  · exact hdigit c (List.all_eq_true.mp (isDigits_repr whole).2 c hc)
  · split at hc
    · cases hc
    · rcases List.mem_cons.mp hc with rfl | hc
      · decide
      · exact hdigit c (List.all_eq_true.mp h c hc)

def writtenFraction (v : ℚ) : List Char × ℕ :=
  let numerator := v.num.toNat % v.den
  if numerator = 0 then ([], 0)
  else
    let (digits, left) := fractionDigits 128 numerator v.den
    (digits.toList, left)

theorem writtenFraction_digits (v : ℚ) :
    (writtenFraction v).1.all Char.isDigit = true := by
  unfold writtenFraction
  dsimp only
  split
  · rfl
  · exact fractionDigits_digits (Nat.mod_lt _ v.den_pos) 128

theorem writtenFraction_value (v : ℚ) :
    v.num.toNat % v.den * 10 ^ (writtenFraction v).1.length
      = digitsValue (writtenFraction v).1 * v.den + (writtenFraction v).2 := by
  unfold writtenFraction
  dsimp only
  split
  · next hzero => simp [hzero, digitsValue]
  · exact fractionDigits_value (Nat.mod_lt _ v.den_pos) 128

/-- The spelling of a number that is written. -/
def written (v : ℚ) : Numeral := plain (v.num.toNat / v.den) (writtenFraction v).1

/-- **What is written**: the whole part and the digits of the rest. -/
theorem number_eq_ok : number v = .ok value ↔ 0 ≤ v ∧ (writtenFraction v).2 = 0
    ∧ (written v).text.length ≤ 128 ∧ value = .number (String.ofList (written v).text) := by
  have hsize : (String.ofList (written v).text).utf8ByteSize = (written v).text.length := by
    rw [Utf8.size_of_ascii] <;> rw [String.toList_ofList]
    exact ascii_plain _ (writtenFraction_digits v)
  unfold number
  rw [bind_eq_ok, ← hsize]
  simp only [ensure_eq_ok, exists_const]
  refine and_congr_right fun _ => ?_
  unfold written writtenFraction
  rw [text_plain]
  dsimp only
  split
  · rw [if_pos rfl, List.append_nil, String.ofList_toList, bind_eq_ok]
    simp only [ensure_eq_ok, exists_const, pure_eq_ok, true_and, eq_comm (b := value)]
  · next hzero =>
    have hne : (fractionDigits 128 (v.num.toNat % v.den) v.den).1.toList ≠ [] := by
      rw [(fractionDigits_succ (Nat.mod_lt _ v.den_pos) 127).1]
      exact List.cons_ne_nil _ _
    have htext : String.ofList ((v.num.toNat / v.den).repr.toList
        ++ '.' :: (fractionDigits 128 (v.num.toNat % v.den) v.den).1.toList)
        = (v.num.toNat / v.den).repr ++ "."
            ++ (fractionDigits 128 (v.num.toNat % v.den) v.den).1 := by
      rw [← String.toList_inj]
      simp
    rw [if_neg hne, bind_eq_ok, htext]
    simp only [ensure_eq_ok, exists_const, pure_eq_ok, and_assoc, eq_comm (b := value)]

theorem mul_den (h : 0 ≤ v) : v * v.den = v.num.toNat := by
  have hnum : (v.num.toNat : ℤ) = v.num := Int.toNat_of_nonneg (Rat.num_nonneg.mpr h)
  rw [Rat.mul_den_eq_num, ← hnum]
  rfl

/-- **What is written denotes the number** if the division has ended. -/
theorem value_written (h : 0 ≤ v) (hends : (writtenFraction v).2 = 0) : (written v).value = v := by
  have hden : (v.den : ℚ) ≠ 0 := Nat.cast_ne_zero.mpr v.den_nz
  have hvalue := mul_den h
  have hdivision : ((v.num.toNat / v.den : ℕ) : ℚ) * v.den + (v.num.toNat % v.den : ℕ)
      = v.num.toNat := by exact_mod_cast Nat.div_add_mod' v.num.toNat v.den
  have hfraction : ((v.num.toNat % v.den : ℕ) : ℚ) * 10 ^ (writtenFraction v).1.length
      = digitsValue (writtenFraction v).1 * v.den := by
    have hwritten := writtenFraction_value v
    rw [hends, Nat.add_zero] at hwritten
    exact_mod_cast hwritten
  have hscaled : (written v).value * v.den = v * v.den := by
    rw [written, value_plain, hvalue, ← hdivision, add_mul, div_mul_eq_mul_div, ← hfraction,
      mul_div_assoc, div_self (pow_ne_zero _ (by norm_num)), mul_one]
  exact mul_right_cancel₀ hden hscaled

/-- **What is written is read back.** -/
theorem decimal_of_number (h : number v = .ok value) :
    ∃ text, value = .number text ∧ decimal text = .ok v := by
  obtain ⟨hnonneg, hends, hlength, rfl⟩ := number_eq_ok.mp h
  have hvalid : (written v).Valid := valid_plain _ (writtenFraction_digits v)
  have hsize : (String.ofList (written v).text).utf8ByteSize = (written v).text.length := by
    rw [Utf8.size_of_ascii] <;> rw [String.toList_ofList]
    exact ascii_plain _ (writtenFraction_digits v)
  refine ⟨_, rfl, decimal_eq_ok.mpr ⟨⟨?_, hsize.trans_le hlength⟩, written v, hvalid,
    String.toList_ofList, value_written hnonneg hends⟩⟩
  rw [hsize, written, text_plain, List.length_append]
  have hpos := List.length_pos_iff.mpr (isDigits_repr (v.num.toNat / v.den)).1
  omega

theorem length_repr_le {digits : List Char} (h : isDigits digits) :
    (Nat.repr (digitsValue digits)).toList.length ≤ digits.length := by
  rw [Nat.toList_repr, Nat.length_toDigits_le_iff (by decide) (List.length_pos_iff.mpr h.1)]
  exact digitsValue_lt h.2

/-- The whole part and the rest of a number that is spelled without an exponent. -/
theorem division_of_spelled {whole fraction k N d : ℕ} (hfraction : fraction < 10 ^ k)
    (hd : 0 < d) (h : N * 10 ^ k = (whole * 10 ^ k + fraction) * d) :
    N / d = whole ∧ N % d * 10 ^ k = fraction * d := by
  have hpos : 0 < 10 ^ k := by positivity
  have hwhole : N / d = whole := by
    refine Nat.div_eq_of_lt_le ?_ ?_
    · refine Nat.le_of_mul_le_mul_right ?_ hpos
      nlinarith
    · refine Nat.lt_of_mul_lt_mul_right (a := 10 ^ k) ?_
      nlinarith
  refine ⟨hwhole, ?_⟩
  have hdivision := Nat.div_add_mod' N d
  rw [hwhole] at hdivision
  nlinarith

/-- **A number that can be spelled is written.** -/
theorem number_of_spelled (hn : n.Valid) (hpositive : n.negative = false)
    (hplain : n.exponent = none) (hlength : n.text.length ≤ 128) (hv : n.value = v) :
    ∃ value, number v = .ok value := by
  have hvalue : v = digitsValue n.whole
      + (digitsValue (n.fraction.getD []) : ℚ) / 10 ^ (n.fraction.getD []).length := by
    rw [← hv, hn.value_eq, Numeral.magnitude, hplain]
    simp
  have hnonneg : 0 ≤ v := by
    rw [hvalue]
    positivity
  have hfraction : digitsValue (n.fraction.getD []) < 10 ^ (n.fraction.getD []).length := by
    cases hf : n.fraction with
    | none => decide
    | some f => exact digitsValue_lt (hn.fraction f hf).2
  have hscaled : v.num.toNat * 10 ^ (n.fraction.getD []).length
      = (digitsValue n.whole * 10 ^ (n.fraction.getD []).length
        + digitsValue (n.fraction.getD [])) * v.den := by
    have hmul := mul_den hnonneg
    have hcast : (v.num.toNat : ℚ) * 10 ^ (n.fraction.getD []).length
        = (digitsValue n.whole * 10 ^ (n.fraction.getD []).length
          + digitsValue (n.fraction.getD [])) * v.den := by
      rw [← hmul]
      nth_rewrite 1 [hvalue]
      field_simp
    exact_mod_cast hcast
  obtain ⟨hwhole, hrest⟩ := division_of_spelled hfraction v.den_pos hscaled
  have hrepr := length_repr_le hn.whole
  have htext : n.text.length
      = n.whole.length + ((n.fraction.map ('.' :: ·)).getD []).length := by
    simp [Numeral.text, Numeral.mantissa, hpositive, hplain]
  suffices hwritten : (writtenFraction v).2 = 0 ∧ (written v).text.length ≤ 128 from
    ⟨_, number_eq_ok.mpr ⟨hnonneg, hwritten.1, hwritten.2, rfl⟩⟩
  unfold written writtenFraction
  rw [text_plain, hwhole]
  dsimp only
  split
  · rw [if_pos rfl, List.append_nil]
    exact ⟨rfl, by omega⟩
  · next hne =>
    cases hf : n.fraction with
    | none =>
      -- Without a fraction there is no rest.
      rw [hf] at hrest
      exact absurd (by simpa [digitsValue] using hrest) hne
    | some f =>
      rw [hf] at hrest htext
      have hlen : 0 < f.length := List.length_pos_iff.mpr (hn.fraction f hf).1
      have hsum : n.text.length = n.whole.length + (f.length + 1) := htext
      have hends : v.den ∣ v.num.toNat % v.den * 10 ^ f.length :=
        ⟨_, hrest.trans (mul_comm _ _)⟩
      obtain ⟨hzero, hshort⟩ :=
        fractionDigits_ends (Nat.mod_lt _ v.den_pos) hlen hends (by omega : f.length ≤ 128)
      refine ⟨hzero, ?_⟩
      dsimp only
      rw [List.length_append]
      split
      · simp only [List.length_nil]
        omega
      · rw [List.length_cons]
        omega

/-- **Decimals are read and written exactly.** A text is read if and only if it
has 1 to 128 bytes and spells a numeral, and then as the number it denotes; and
every nonnegative number is written as a text that is read as that number, or it
has no spelling without an exponent of at most 128 characters. -/
theorem decimals_exact :
    (∀ (s : String) (q : ℚ), decimal s = .ok q ↔
      (1 ≤ s.utf8ByteSize ∧ s.utf8ByteSize ≤ 128) ∧
        ∃ n : Numeral, n.Valid ∧ s.toList = n.text ∧ n.value = q) ∧
    (∀ v : ℚ, 0 ≤ v → ∀ value, number v = .ok value →
      ∃ text, value = .number text ∧ decimal text = .ok v) ∧
    (∀ v : ℚ, 0 ≤ v → ∀ e, number v = .error e →
      ¬ ∃ n : Numeral, n.Valid ∧ n.negative = false ∧ n.exponent = none
        ∧ n.text.length ≤ 128 ∧ n.value = v) := by
  refine ⟨fun s q => decimal_eq_ok, fun v _ value h => decimal_of_number h, fun v _ e h => ?_⟩
  rintro ⟨n, hn, hpositive, hplain, hlength, hv⟩
  obtain ⟨value, hvalue⟩ := number_of_spelled hn hpositive hplain hlength hv
  rw [h] at hvalue
  cases hvalue

end Mapping

end BitRouter.Registry
