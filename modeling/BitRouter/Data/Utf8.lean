import Mathlib.Data.List.Basic
import Mathlib.Tactic.Common

/-!
# The bytes of a text

A text and its UTF-8 bytes determine each other: `bytes` is injective, and
`ofBytes` answers exactly the text that has the given bytes, if there is one
(`ofBytes_eq_some`). A text of ASCII characters has one byte a character.
-/

namespace BitRouter.Utf8

/-- `str::bytes`. -/
def bytes (s : String) : List UInt8 := s.toList.flatMap String.utf8EncodeChar

/-- `String::from_utf8`. -/
def ofBytes (bs : List UInt8) : Option String := String.fromUTF8? bs.toByteArray

variable {s t : String} {bs cs : List UInt8}

theorem toByteArray_inj (h : bs.toByteArray = cs.toByteArray) : bs = cs := by
  have hdata := congrArg ByteArray.data h
  rw [List.data_toByteArray, List.data_toByteArray] at hdata
  exact List.toArray_inj hdata

theorem bytes_toByteArray (s : String) : (bytes s).toByteArray = s.toByteArray :=
  String.utf8Encode_toList

/-- **Bytes are read as the text that has them.** -/
theorem ofBytes_eq_some : ofBytes bs = some s ↔ bytes s = bs := by
  unfold ofBytes String.fromUTF8?
  constructor
  · intro h
    split at h
    · rw [← Option.some.inj h]
      exact toByteArray_inj (bytes_toByteArray _)
    · cases h
  · rintro rfl
    have hvalid : (bytes s).toByteArray.IsValidUTF8 := by
      rw [bytes_toByteArray]
      exact s.isValidUTF8
    rw [dif_pos hvalid, Option.some.injEq, ← String.toByteArray_inj]
    exact bytes_toByteArray s

@[simp] theorem ofBytes_bytes (s : String) : ofBytes (bytes s) = some s :=
  ofBytes_eq_some.mpr rfl

/-! ## ASCII -/

theorem utf8EncodeChar_of_lt {c : Char} (h : c.toNat < 128) :
    String.utf8EncodeChar c = [UInt8.ofNat c.toNat] := by
  have hle : c.val.toNat ≤ 0x7f := Nat.le_of_lt_succ h
  unfold String.utf8EncodeChar
  simp only [hle, if_true]
  rfl

/-- **An ASCII byte is a character of its own.** -/
theorem utf8EncodeChar_ofNat {b : UInt8} (h : b.toNat < 128) :
    String.utf8EncodeChar (Char.ofNat b.toNat) = [b] := by
  have hvalid : b.toNat.isValidChar := .inl (by omega)
  have hto : (Char.ofNat b.toNat).toNat = b.toNat := by
    rw [Char.ofNat, dif_pos hvalid]
    exact UInt32.toNat_ofNatLT
  rw [utf8EncodeChar_of_lt (by rw [hto]; exact h), hto, UInt8.ofNat_toNat]

theorem bytes_of_ascii (h : ∀ b ∈ bs, b.toNat < 128) :
    bytes (String.ofList (bs.map fun b => Char.ofNat b.toNat)) = bs := by
  rw [bytes, String.toList_ofList, List.flatMap_map]
  induction bs with
  | nil => rfl
  | cons b bs ih =>
    rw [List.flatMap_cons, utf8EncodeChar_ofNat (h b List.mem_cons_self),
      ih fun b hb => h b (List.mem_cons_of_mem _ hb)]
    rfl

theorem size_of_ascii (h : ∀ c ∈ s.toList, c.toNat < 128) : s.utf8ByteSize = s.toList.length := by
  rw [← String.size_toByteArray, ← bytes_toByteArray, List.size_toByteArray, bytes]
  generalize s.toList = chars at h
  induction chars with
  | nil => rfl
  | cons c chars ih =>
    rw [List.flatMap_cons, List.length_append, utf8EncodeChar_of_lt (h c List.mem_cons_self),
      ih fun c hc => h c (List.mem_cons_of_mem _ hc)]
    exact Nat.add_comm _ _

end BitRouter.Utf8
