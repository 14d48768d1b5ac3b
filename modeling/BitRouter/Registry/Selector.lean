import BitRouter.Data.StrPrefix
import BitRouter.Data.Utf8
import BitRouter.Registry.Normalize

/-!
# Selectors of native models

`selector.rs`: a provider and a model of its own naming as one text. The bytes
of the model are written as they are where they are letters, digits, dots,
underscores or hyphens, and as `%` and two hexadecimal digits elsewhere.

Reading accepts more than writing produces – lowercase digits, and escapes of
bytes that need none – so a text is accepted exactly when it *is* an escape of
a valid pair (`decode_eq_some`), and the pair is what it escapes.
-/

namespace BitRouter.Registry

/-- An exact inventory lookup. -/
structure NativeSelector where
  provider : String
  model : String
  deriving DecidableEq, Repr

namespace Selector

/-! ## Reading and writing -/

def isAsciiDigit (b : UInt8) : Bool := 48 ≤ b && b ≤ 57
def isAsciiLowercase (b : UInt8) : Bool := 97 ≤ b && b ≤ 122
def isAsciiUppercase (b : UInt8) : Bool := 65 ≤ b && b ≤ 90

def isAsciiAlphanumeric (b : UInt8) : Bool :=
  isAsciiDigit b || isAsciiLowercase b || isAsciiUppercase b

/-- The name of a provider: lowercase letters, digits, `_` and `-`. -/
def providerName (value : String) : Bool :=
  (Utf8.bytes value).head?.any isAsciiAlphanumeric
    && (Utf8.bytes value).all fun b => isAsciiLowercase b || isAsciiDigit b || b = 95 || b = 45

/-- The marker of a native selector. -/
def marker : String := ":~native/"

/-- A byte that is written as it is. -/
def isUnreserved (b : UInt8) : Bool := isAsciiAlphanumeric b || b = 46 || b = 95 || b = 45

/-- A digit of `0123456789ABCDEF`. -/
def hexDigit (n : UInt8) : UInt8 := if n < 10 then 48 + n else 55 + n

def encodeByte (b : UInt8) : List UInt8 :=
  if isUnreserved b then [b] else [37, hexDigit (b >>> 4), hexDigit (b &&& 15)]

/-- `char::from`. -/
def charFrom (b : UInt8) : Char := Char.ofNat b.toNat

def invalid (message : String) : RegistryError := RegistryError.invalid "/model" message

/-- **The selector of a model.** -/
def encode (provider model : String) : Except RegistryError String := do
  ensure (providerName provider = true ∧ Mapping.nativeId model = true)
    (invalid "Invalid provider/native identity")
  return provider ++ (marker
    ++ String.ofList (((Utf8.bytes model).flatMap encodeByte).map charFrom))

/-- The value of a hexadecimal digit. -/
def hex (b : UInt8) : Option UInt8 :=
  if isAsciiDigit b then some (b - 48)
  else if 65 ≤ b && b ≤ 70 then some (b - 65 + 10)
  else if 97 ≤ b && b ≤ 102 then some (b - 97 + 10)
  else none

/-- The bytes an escaped text stands for. -/
def decodeBytes : List UInt8 → Except RegistryError (List UInt8)
  | [] => .ok []
  | b :: rest =>
    if b = 37 then
      match rest with
      | high :: low :: rest => do
        let b ← orFail ((hex high).bind fun a => (hex low).map fun b => a <<< 4 ||| b)
          (invalid "Invalid native selector escape")
        return b :: (← decodeBytes rest)
      | _ => .error (invalid "Truncated native selector escape")
    else if isUnreserved b then do return b :: (← decodeBytes rest)
    else .error (invalid "Native selector contains an unescaped byte")

attribute [local grind =] decodeBytes

/-- **What a selector selects**, if it is one at all. -/
def decode (value : String) : Except RegistryError (Option NativeSelector) :=
  match StrPrefix.splitOnce value marker with
  | none => .ok none
  | some (provider, encoded) => do
    ensure (providerName provider = true) (invalid "Invalid native selector provider")
    let decoded ← decodeBytes (Utf8.bytes encoded)
    let model ← orFail (Utf8.ofBytes decoded) (invalid "Native selector is not valid UTF-8")
    ensure (Mapping.nativeId model = true)
      (invalid "Native selector has an empty or control-bearing model ID")
    return some { provider, model }

example : encode "example" "Vendor/Experimental:Beta%1"
    = .ok "example:~native/Vendor%2FExperimental%3ABeta%251" := by decide +kernel

/-! ## Escapes -/

/-- **The bytes a text escapes**: each byte stands for itself, if it may, or is
given by two hexadecimal digits. -/
inductive Escapes : List UInt8 → List UInt8 → Prop
  | nil : Escapes [] []
  | plain {b : UInt8} {text decoded : List UInt8} :
      isUnreserved b = true → Escapes text decoded → Escapes (b :: text) (b :: decoded)
  | escaped {high low a b : UInt8} {text decoded : List UInt8} :
      hex high = some a → hex low = some b → Escapes text decoded →
      Escapes (37 :: high :: low :: text) ((a <<< 4 ||| b) :: decoded)

variable {text decoded : List UInt8} {provider model value : String} {selected : NativeSelector}

theorem ne_percent {b : UInt8} (h : isUnreserved b = true) : b ≠ 37 := by
  rintro rfl
  exact absurd h (by decide)

theorem decodeBytes_of_ne {b : UInt8} (h : b ≠ 37) :
    decodeBytes (b :: text) =
      if isUnreserved b then do return b :: (← decodeBytes text)
      else .error (invalid "Native selector contains an unescaped byte") := by
  rw [decodeBytes.eq_def]
  exact if_neg h

theorem Escapes.decodeBytes (h : Escapes text decoded) :
    Selector.decodeBytes text = .ok decoded := by
  induction h with
  | nil => rfl
  | plain hplain _ ih =>
    rw [decodeBytes_of_ne (ne_percent hplain), if_pos hplain, ih]
    rfl
  | escaped hhigh hlow _ ih =>
    rw [Selector.decodeBytes, if_pos rfl, hhigh, hlow, ih]
    rfl

theorem escapes_of_decodeBytes (h : Selector.decodeBytes text = .ok decoded) :
    Escapes text decoded := by
  induction text using Selector.decodeBytes.induct generalizing decoded with
  | case1 =>
    obtain rfl := Except.ok.inj h
    exact .nil
  | case2 high low rest ih =>
    obtain ⟨b, hb, h⟩ := bind_eq_ok.mp h
    obtain ⟨rest', hrest, h⟩ := bind_eq_ok.mp h
    obtain rfl := pure_eq_ok.mp h
    obtain ⟨a, ha, hb⟩ := Option.bind_eq_some_iff.mp (orFail_eq_ok.mp hb)
    obtain ⟨c, hc, rfl⟩ := Option.map_eq_some_iff.mp hb
    exact .escaped ha hc (ih hrest)
  | case3 rest hshort =>
    rw [Selector.decodeBytes, if_pos rfl] at h
    · cases h
    · exact hshort
  | case4 b rest hne hplain ih =>
    rw [decodeBytes_of_ne hne, if_pos hplain] at h
    obtain ⟨rest', hrest, h⟩ := bind_eq_ok.mp h
    obtain rfl := pure_eq_ok.mp h
    exact .plain hplain (ih hrest)
  | case5 b rest hne hreserved =>
    rw [decodeBytes_of_ne hne, if_neg hreserved] at h
    cases h

theorem decodeBytes_eq_ok : Selector.decodeBytes text = .ok decoded ↔ Escapes text decoded :=
  ⟨escapes_of_decodeBytes, Escapes.decodeBytes⟩

/-! ## Written escapes -/

theorem forall_byte {p : UInt8 → Prop} (h : ∀ n < 256, p (UInt8.ofNat n)) (b : UInt8) : p b := by
  rw [← UInt8.ofNat_toNat (x := b)]
  exact h _ b.toNat_lt

/-- **An escape names its byte**: its digits are read back as the halves of it. -/
theorem hex_halves (b : UInt8) : (hex (hexDigit (b >>> 4))).bind (fun high =>
    (hex (hexDigit (b &&& 15))).map fun low => high <<< 4 ||| low) = some b := by
  revert b
  exact forall_byte (by decide +kernel)

theorem encodeByte_lt (b : UInt8) : ∀ c ∈ encodeByte b, c.toNat < 128 := by
  -- A test over the list, not over all bytes that might be in it.
  have hall (b : UInt8) : (encodeByte b).all (fun c => decide (c.toNat < 128)) = true := by
    revert b
    exact forall_byte (by decide +kernel)
  exact fun c hc => of_decide_eq_true (List.all_eq_true.mp (hall b) c hc)

theorem escapes_encodeByte (b : UInt8) (h : Escapes text decoded) :
    Escapes (encodeByte b ++ text) (b :: decoded) := by
  unfold encodeByte
  split
  · next hplain => exact .plain hplain h
  · obtain ⟨high, hhigh, hlow⟩ := Option.bind_eq_some_iff.mp (hex_halves b)
    obtain ⟨low, hlow, rfl⟩ := Option.map_eq_some_iff.mp hlow
    exact .escaped hhigh hlow h

theorem escapes_encode (bs : List UInt8) : Escapes (bs.flatMap encodeByte) bs := by
  induction bs with
  | nil => exact .nil
  | cons b bs ih => exact escapes_encodeByte b ih

theorem bytes_encoded (bs : List UInt8) :
    Utf8.bytes (String.ofList ((bs.flatMap encodeByte).map charFrom)) = bs.flatMap encodeByte := by
  refine Utf8.bytes_of_ascii fun c hc => ?_
  obtain ⟨b, -, hc⟩ := List.mem_flatMap.mp hc
  exact encodeByte_lt b c hc

/-! ## Selectors -/

/-- **An escape of a valid pair.** -/
structure IsEscape (value : String) (selected : NativeSelector) : Prop where
  provider : providerName selected.provider = true
  model : Mapping.nativeId selected.model = true
  text : ∃ text, value = selected.provider ++ (marker ++ text)
    ∧ Escapes (Utf8.bytes text) (Utf8.bytes selected.model)

theorem colon_notMem (h : providerName provider = true) : ':' ∉ provider.toList := by
  intro hcolon
  have hbyte : (58 : UInt8) ∈ Utf8.bytes provider :=
    List.mem_flatMap.mpr ⟨':', hcolon, by decide⟩
  exact absurd (List.all_eq_true.mp (Bool.and_eq_true_iff.mp h).2 58 hbyte) (by decide)

theorem toList_marker : marker.toList = ':' :: "~native/".toList := by decide +kernel

theorem splitOnce_marker (h : providerName provider = true) (text : String) :
    StrPrefix.splitOnce (provider ++ (marker ++ text)) marker = some (provider, text) :=
  StrPrefix.splitOnce_append toList_marker (colon_notMem h)

/-- **A text is read as the pair it escapes**, and only then. -/
theorem decode_eq_some : decode value = .ok (some selected) ↔ IsEscape value selected := by
  unfold decode
  constructor
  · intro h
    split at h
    · cases h
    · next provider encoded hsplit =>
      obtain ⟨_, hprovider, h⟩ := bind_eq_ok.mp h
      obtain ⟨decoded, hdecoded, h⟩ := bind_eq_ok.mp h
      obtain ⟨model, hmodel, h⟩ := bind_eq_ok.mp h
      obtain ⟨_, hnative, h⟩ := bind_eq_ok.mp h
      obtain rfl := Option.some.inj (pure_eq_ok.mp h)
      obtain rfl := Utf8.ofBytes_eq_some.mp (orFail_eq_ok.mp hmodel)
      exact ⟨ensure_eq_ok.mp hprovider, ensure_eq_ok.mp hnative, encoded,
        StrPrefix.append_of_splitOnce hsplit, decodeBytes_eq_ok.mp hdecoded⟩
  · rintro ⟨hprovider, hnative, text, rfl, hescapes⟩
    rw [splitOnce_marker hprovider]
    refine bind_eq_ok.mpr ⟨(), ensure_eq_ok.mpr hprovider, ?_⟩
    refine bind_eq_ok.mpr ⟨_, decodeBytes_eq_ok.mpr hescapes, ?_⟩
    refine bind_eq_ok.mpr ⟨_, orFail_eq_ok.mpr (Utf8.ofBytes_bytes _), ?_⟩
    exact bind_eq_ok.mpr ⟨(), ensure_eq_ok.mpr hnative, rfl⟩

/-- A text is left to its usual resolver where it has no marker. -/
theorem decode_eq_none : decode value = .ok none ↔ ¬ marker.toList <:+: value.toList := by
  rw [← StrPrefix.splitOnce_eq_none]
  unfold decode
  split
  · next hsplit => exact iff_of_true rfl hsplit
  · next hsplit =>
    refine iff_of_false (fun h => ?_) (fun h => ?_)
    · obtain ⟨_, -, h⟩ := bind_eq_ok.mp h
      obtain ⟨_, -, h⟩ := bind_eq_ok.mp h
      obtain ⟨_, -, h⟩ := bind_eq_ok.mp h
      obtain ⟨_, -, h⟩ := bind_eq_ok.mp h
      cases pure_eq_ok.mp h
    · rw [hsplit] at h
      cases h

theorem isEscape_of_encode (h : encode provider model = .ok value) :
    IsEscape value ⟨provider, model⟩ := by
  obtain ⟨_, hvalid, h⟩ := bind_eq_ok.mp h
  obtain ⟨hprovider, hmodel⟩ := ensure_eq_ok.mp hvalid
  obtain rfl := pure_eq_ok.mp h
  refine ⟨hprovider, hmodel, _, rfl, ?_⟩
  rw [bytes_encoded]
  exact escapes_encode _

theorem encode_of_isEscape (h : IsEscape value selected) :
    ∃ text, encode selected.provider selected.model = .ok text :=
  ⟨_, bind_eq_ok.mpr ⟨(), ensure_eq_ok.mpr ⟨h.provider, h.model⟩, rfl⟩⟩

/-- **Selectors are exact.** Every pair that can be written is read back, so no
two pairs are written alike; every pair that is read can be written, and is read
of what is written; and a text is either without the marker and no selector, or
an escape of a valid pair, or an error. -/
theorem selectors_exact :
    (∀ provider model value, encode provider model = .ok value →
      decode value = .ok (some ⟨provider, model⟩)) ∧
    (∀ provider model provider' model' value, encode provider model = .ok value →
      encode provider' model' = .ok value → provider = provider' ∧ model = model') ∧
    (∀ value selected, decode value = .ok (some selected) →
      ∃ text, encode selected.provider selected.model = .ok text ∧
        decode text = .ok (some selected)) ∧
    (∀ value, decode value = .ok none ↔ ¬ marker.toList <:+: value.toList) ∧
    (∀ value, (∃ e, decode value = .error e) ↔
      marker.toList <:+: value.toList ∧ ¬ ∃ selected, IsEscape value selected) := by
  have hread (provider model value : String) (h : encode provider model = .ok value) :
      decode value = .ok (some ⟨provider, model⟩) := decode_eq_some.mpr (isEscape_of_encode h)
  refine ⟨hread, fun provider model provider' model' value h h' => ?_, fun value selected h => ?_,
    fun value => decode_eq_none, fun value => ?_⟩
  · have heq := (hread _ _ _ h).symm.trans (hread _ _ _ h')
    exact NativeSelector.mk.inj (Option.some.inj (Except.ok.inj heq))
  · obtain ⟨text, htext⟩ := encode_of_isEscape (decode_eq_some.mp h)
    exact ⟨text, htext, hread _ _ _ htext⟩
  · have hnone : marker.toList <:+: value.toList ↔ decode value ≠ .ok none := by
      rw [ne_eq, decode_eq_none, not_not]
    simp only [hnone, ← decode_eq_some]
    match decode value with
    | .error e => simp
    | .ok none => simp
    | .ok (some selected) => simp

end Selector

end BitRouter.Registry
