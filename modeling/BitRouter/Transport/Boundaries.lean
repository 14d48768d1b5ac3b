import BitRouter.Data.Along
import BitRouter.Transport.Wire

/-!
# Frames across reads

The parser of `wire.rs` is fed whatever the transport has read or written,
cut anywhere. `Layout` and `Framed` say what the bytes are, after the layout
of RFC 9113: whole frames, and the beginning of one more. The loops over the
parser are loops over single bytes (`receiving_cons`), so how
the bytes are cut does not matter, and after each byte the position holds the
frame the bytes end in (`Frames.Holds`): a frame is completed with its last
byte, be that the last byte of its header.

On the reading side a frame and a header block that are not completed in time
end the connection. `wire_frames_exact` says between which reads the deadline
stands.
-/

namespace BitRouter.Http2

/-! ## The layout -/

/-- The number written by some bytes, the highest first. -/
def bigEndian (bytes : List UInt8) : ℕ := bytes.foldl (fun n b => 256 * n + b.toNat) 0

/-- **A frame as it is written**: the length of its payload in three bytes, its kind
and flags, its stream in four bytes with a reserved bit, and the payload. -/
structure Layout (bytes : List UInt8) (frame : Frame) : Prop where
  length : bytes.length = 9 + bigEndian (bytes.take 3)
  kind : bytes[3]? = some frame.kind
  flags : bytes[4]? = some frame.flags
  stream : frame.stream = bigEndian ((bytes.drop 5).take 4) % 2 ^ 31

/-- **Bytes as frames**: those of which they have the last byte, and a rest that has
none. -/
inductive Framed : List UInt8 → List Frame → List UInt8 → Prop
  | rest {bytes : List UInt8} (h : ∀ head frame, Layout head frame → ¬ head <+: bytes) :
      Framed bytes [] bytes
  | frame {head tail rest : List UInt8} {frame : Frame} {frames : List Frame}
      (h : Layout head frame) (htail : Framed tail frames rest) :
      Framed (head ++ tail) (frame :: frames) rest

section Framed

variable {bytes head head' tail rest rest' : List UInt8} {frame frame' : Frame}
  {frames frames' : List Frame}

theorem Layout.ne_nil (h : Layout head frame) : head ≠ [] := by
  rintro rfl
  exact absurd h.kind (by simp)

/-- How long a frame is can be told from its header. -/
theorem Layout.length_of_isPrefix (h : Layout head frame) (hle : head <+: bytes) :
    head.length = 9 + bigEndian (bytes.take 3) := by
  obtain ⟨tail, rfl⟩ := hle
  have hlong : 3 ≤ head.length := by
    have := h.length
    omega
  rw [List.take_append_of_le_length hlong]
  exact h.length

/-- Bytes begin with one frame at most. -/
theorem Layout.unique (h : Layout head frame) (h' : Layout head' frame') (hle : head <+: bytes)
    (hle' : head' <+: bytes) : head = head' ∧ frame = frame' := by
  have hlength : head.length = head'.length := by
    rw [h.length_of_isPrefix hle, h'.length_of_isPrefix hle']
  obtain rfl : head = head' :=
    (List.prefix_of_prefix_length_le hle hle' hlength.le).eq_of_length hlength
  refine ⟨rfl, ?_⟩
  have hkind := Option.some.inj (h.kind.symm.trans h'.kind)
  have hflags := Option.some.inj (h.flags.symm.trans h'.flags)
  have hstream := h.stream.trans h'.stream.symm
  cases frame
  cases frame'
  simp_all

theorem framed_nil : Framed [] [] [] :=
  .rest fun _ _ h hle => h.ne_nil (List.prefix_nil.mp hle)

theorem Framed.append (h : Framed bytes frames rest) (htail : Framed (rest ++ tail) frames' rest') :
    Framed (bytes ++ tail) (frames ++ frames') rest' := by
  induction h with
  | rest _ => exact htail
  | frame h _ ih =>
    rw [List.append_assoc, List.cons_append]
    exact .frame h (ih htail)

/-- **The frames of bytes are determined.** -/
theorem Framed.unique (h : Framed bytes frames rest) (h' : Framed bytes frames' rest') :
    frames' = frames ∧ rest' = rest := by
  induction h generalizing frames' rest' with
  | rest hrest =>
    cases h' with
    | rest _ => exact ⟨rfl, rfl⟩
    | frame h _ => exact absurd (List.prefix_append _ _) (hrest _ _ h)
  | @frame head tail rest frame frames hframe _ ih =>
    generalize hbytes : head ++ tail = bytes at h'
    cases h' with
    | rest hrest => exact absurd (hbytes ▸ List.prefix_append _ _) (hrest _ _ hframe)
    | frame hframe' htail' =>
      obtain ⟨rfl, rfl⟩ := hframe.unique hframe' (List.prefix_append head tail)
        (hbytes ▸ List.prefix_append _ _)
      obtain rfl := List.append_cancel_left hbytes
      obtain ⟨rfl, rfl⟩ := ih htail'
      exact ⟨rfl, rfl⟩

end Framed

/-! ## The position in the bytes -/

theorem shiftLeft_or_eq {a b : ℕ} (n : ℕ) (h : b < 2 ^ n) : a <<< n ||| b = 2 ^ n * a + b := by
  rw [← Nat.shiftLeft_add_eq_or_of_lt h, Nat.shiftLeft_eq, Nat.mul_comm]

theorem RawFrames.length_eq (f : RawFrames) :
    f.length = bigEndian [f.header 0, f.header 1, f.header 2] := by
  have h1 := (f.header 1).toNat_lt
  have h2 := (f.header 2).toNat_lt
  show _ <<< 16 ||| _ <<< 8 ||| _ = 256 * (256 * (256 * 0 + _) + _) + _
  rw [Nat.or_assoc, shiftLeft_or_eq 8 h2, shiftLeft_or_eq 16 (by omega)]
  omega

theorem RawFrames.stream_eq (f : RawFrames) :
    f.stream = bigEndian [f.header 5, f.header 6, f.header 7, f.header 8] % 2 ^ 31 := by
  have h6 := (f.header 6).toNat_lt
  have h7 := (f.header 7).toNat_lt
  have h8 := (f.header 8).toNat_lt
  show (_ <<< 24 ||| _ <<< 16 ||| _ <<< 8 ||| _) &&& (2 ^ 31 - 1)
    = (256 * (256 * (256 * (256 * 0 + _) + _) + _) + _) % 2 ^ 31
  rw [Nat.and_two_pow_sub_one_eq_mod, Nat.or_assoc, shiftLeft_or_eq 8 h8, Nat.or_assoc,
    shiftLeft_or_eq 16 (by omega), shiftLeft_or_eq 24 (by omega)]
  congr 1
  omega

/-- **A position holds bytes**: as much of the frame header as they contain, and,
where they contain all of it, how much of the payload they lack. -/
structure RawFrames.Holds (f : RawFrames) (bytes : List UInt8) : Prop where
  used : f.used = min bytes.length 9
  header : ∀ i : Fin 9, i.val < bytes.length → bytes[i.val]? = some (f.header i)
  remaining : 9 ≤ bytes.length → f.remaining + bytes.length = 9 + f.length

namespace RawFrames.Holds

variable {f : RawFrames} {bytes : List UInt8}

theorem take_three (h : f.Holds bytes) (hlong : 9 ≤ bytes.length) :
    bytes.take 3 = [f.header 0, f.header 1, f.header 2] := by
  have h0 : bytes[0]? = some (f.header 0) := h.header 0 (by show 0 < _; omega)
  have h1 : bytes[1]? = some (f.header 1) := h.header 1 (by show 1 < _; omega)
  have h2 : bytes[2]? = some (f.header 2) := h.header 2 (by show 2 < _; omega)
  simp only [List.take_add_one, List.take_zero]
  show [] ++ bytes[0]?.toList ++ bytes[1]?.toList ++ bytes[2]?.toList = _
  rw [h0, h1, h2]
  rfl

theorem drop_five (h : f.Holds bytes) (hlong : 9 ≤ bytes.length) :
    (bytes.drop 5).take 4 = [f.header 5, f.header 6, f.header 7, f.header 8] := by
  have h5 : bytes[5]? = some (f.header 5) := h.header 5 (by show 5 < _; omega)
  have h6 : bytes[6]? = some (f.header 6) := h.header 6 (by show 6 < _; omega)
  have h7 : bytes[7]? = some (f.header 7) := h.header 7 (by show 7 < _; omega)
  have h8 : bytes[8]? = some (f.header 8) := h.header 8 (by show 8 < _; omega)
  simp only [List.take_add_one, List.take_zero, List.getElem?_drop]
  show [] ++ bytes[5]?.toList ++ bytes[6]?.toList ++ bytes[7]?.toList ++ bytes[8]?.toList = _
  rw [h5, h6, h7, h8]
  rfl

/-- Nothing left to read is a whole frame. -/
theorem layout (h : f.Holds bytes) (hused : f.used = 9) (hremaining : f.remaining = 0) :
    Layout bytes { kind := f.header 3, flags := f.header 4, stream := f.stream } := by
  have hlong : 9 ≤ bytes.length := by
    have := h.used
    omega
  refine ⟨?_, h.header 3 (by show 3 < _; omega), h.header 4 (by show 4 < _; omega), ?_⟩
  · rw [h.take_three hlong, ← f.length_eq]
    have := h.remaining hlong
    omega
  · show f.stream = _
    rw [h.drop_five hlong, f.stream_eq]

/-- Something left to read is no whole frame. -/
theorem framed (h : f.Holds bytes) (hwaiting : f.used < 9 ∨ (f.used = 9 ∧ 0 < f.remaining)) :
    Framed bytes [] bytes := by
  refine .rest fun head frame hlayout hle => ?_
  have hlength := hlayout.length_of_isPrefix hle
  have hhead := hle.length_le
  have hused := h.used
  have hlong : 9 ≤ bytes.length := by omega
  have hremaining := h.remaining hlong
  rw [h.take_three hlong, ← f.length_eq] at hlength
  omega

end RawFrames.Holds

/-! ## Byte by byte -/

/-- With the last byte of a frame header, the length of its payload is known. -/
def RawFrames.known (f : RawFrames) : RawFrames :=
  if f.used = 9 then { f with remaining := f.length } else f

@[simp] theorem RawFrames.known_used (f : RawFrames) : f.known.used = f.used := by
  unfold known
  split <;> rfl

@[simp] theorem RawFrames.known_header (f : RawFrames) : f.known.header = f.header := by
  unfold known
  split <;> rfl

@[simp] theorem RawFrames.known_length (f : RawFrames) : f.known.length = f.length := by
  unfold length
  rw [known_header]

theorem RawFrames.known_remaining {f : RawFrames} (h : f.used = 9) :
    f.known.remaining = f.length := by
  unfold known
  rw [if_pos h]

theorem RawFrames.advance_header {f : RawFrames} (hused : f.used < 9) (bytes : List UInt8) :
    f.advance bytes = (known { f with
      header := fun i =>
        if f.used ≤ i.val ∧ i.val < f.used + min bytes.length (9 - f.used) then
          bytes.getD (i.val - f.used) 0
        else f.header i
      used := f.used + min bytes.length (9 - f.used) }, min bytes.length (9 - f.used)) := by
  unfold advance
  rw [if_pos hused]
  rfl

/-- A byte of a frame header. -/
theorem RawFrames.advance_header_one {f : RawFrames} (hused : f.used < 9) (b : UInt8) :
    f.advance [b] = (known { f with
      header := Function.update f.header ⟨f.used, hused⟩ b, used := f.used + 1 }, 1) := by
  have hcount : min [b].length (9 - f.used) = 1 := by
    show min 1 _ = 1
    omega
  rw [advance_header hused, hcount]
  congr 3
  funext i
  by_cases hi : i = ⟨f.used, hused⟩
  · subst hi
    simp
  · have hne : i.val ≠ f.used := fun h => hi (Fin.ext h)
    rw [Function.update_of_ne hi, if_neg (by omega)]

/-- A byte of a payload. -/
theorem RawFrames.advance_payload {f : RawFrames} (hused : f.used = 9)
    (hremaining : 0 < f.remaining)
    (b : UInt8) : f.advance [b] = ({ f with remaining := f.remaining - 1 }, 1) := by
  have hcount : min [b].length f.remaining = 1 := by
    show min 1 _ = 1
    omega
  unfold advance
  rw [if_neg (by omega), hcount]

/-- Filling in a header goes on behind its first byte. -/
theorem fill_cons {header : Fin 9 → UInt8} {k : ℕ} (hk : k < 9) (n : ℕ) (b : UInt8)
    (bs : List UInt8) :
    (fun i : Fin 9 => if k ≤ i.val ∧ i.val < k + (n + 1) then (b :: bs).getD (i.val - k) 0
        else header i)
      = fun i : Fin 9 => if k + 1 ≤ i.val ∧ i.val < k + 1 + n then bs.getD (i.val - (k + 1)) 0
        else Function.update header ⟨k, hk⟩ b i := by
  funext i
  by_cases hi : i = ⟨k, hk⟩
  · subst hi
    simp
  · have hne : i.val ≠ k := fun h => hi (Fin.ext h)
    rw [Function.update_of_ne hi]
    by_cases hin : k ≤ i.val ∧ i.val < k + (n + 1)
    · have hat : i.val - k = i.val - (k + 1) + 1 := by omega
      rw [if_pos hin, if_pos (by omega), hat, List.getD_cons_succ]
    · rw [if_neg hin, if_neg (by omega)]

/-- **A read is cut anywhere**: a round reads one byte, or one byte within a frame and
what a round would read after it. -/
theorem RawFrames.advance_cons {f : RawFrames}
    (hwaiting : f.used < 9 ∨ (f.used = 9 ∧ 0 < f.remaining)) (b : UInt8) (bs : List UInt8) :
    f.advance (b :: bs) = f.advance [b] ∨
      (bs ≠ [] ∧ ¬ ((f.advance [b]).1.used = 9 ∧ (f.advance [b]).1.remaining = 0)
        ∧ f.advance (b :: bs)
          = (((f.advance [b]).1.advance bs).1, ((f.advance [b]).1.advance bs).2 + 1)) := by
  by_cases hnil : bs = []
  · exact .inl (by rw [hnil])
  rcases hwaiting with hlt | ⟨hfull, hremaining⟩
  · by_cases hlast : f.used = 8
    · -- The header ends here, and the payload is left to another round.
      refine .inl ?_
      rw [advance_header hlt, advance_header hlt, hlast, List.length_cons, List.length_singleton,
        Nat.min_eq_right (by omega), Nat.min_eq_right (by omega)]
      congr 3
      funext i
      split
      · have hi : i.val - 8 = 0 := by omega
        rw [hi]
        rfl
      · rfl
    · refine .inr ⟨hnil, ?_, ?_⟩
      · rw [advance_header_one hlt, known_used]
        show ¬ (f.used + 1 = 9 ∧ _)
        omega
      · have hplain : known { f with
            header := Function.update f.header ⟨f.used, hlt⟩ b, used := f.used + 1 }
            = { f with header := Function.update f.header ⟨f.used, hlt⟩ b, used := f.used + 1 } :=
          if_neg (by show f.used + 1 ≠ 9; omega)
        have hcount : min (b :: bs).length (9 - f.used) = min bs.length (9 - (f.used + 1)) + 1 := by
          rw [List.length_cons]
          omega
        rw [advance_header_one hlt, hplain, advance_header hlt,
          advance_header (by show f.used + 1 < 9; omega), hcount]
        have hused : f.used + (min bs.length (9 - (f.used + 1)) + 1)
            = f.used + 1 + min bs.length (9 - (f.used + 1)) := by omega
        rw [fill_cons hlt, hused]
  · by_cases hlast : f.remaining = 1
    · refine .inl ?_
      rw [advance_payload hfull hremaining]
      unfold advance
      rw [if_neg (by omega), hlast, List.length_cons, Nat.min_eq_right (by omega)]
    · refine .inr ⟨hnil, ?_, ?_⟩
      · rw [advance_payload hfull hremaining]
        show ¬ (_ ∧ f.remaining - 1 = 0)
        omega
      · rw [advance_payload hfull hremaining]
        unfold advance
        rw [if_neg (by omega), if_neg (by show ¬ f.used < 9; omega), List.length_cons]
        have hcount : min (bs.length + 1) f.remaining = min bs.length (f.remaining - 1) + 1 := by
          omega
        dsimp only
        congr 2
        omega

/-- A byte that is read is held. -/
theorem RawFrames.Holds.advance {f : RawFrames} {bytes : List UInt8} (h : f.Holds bytes)
    (hwaiting : f.used < 9 ∨ (f.used = 9 ∧ 0 < f.remaining)) (b : UInt8) :
    (f.advance [b]).1.Holds (bytes ++ [b]) := by
  have hused := h.used
  rcases hwaiting with hlt | ⟨hfull, hremaining⟩
  · have hat : f.used = bytes.length := by omega
    rw [RawFrames.advance_header_one hlt]
    refine ⟨?_, fun i hi => ?_, fun hlong => ?_⟩
    · rw [RawFrames.known_used, List.length_append]
      show f.used + 1 = min (_ + 1) 9
      omega
    · rw [RawFrames.known_header]
      show _ = some (Function.update f.header ⟨f.used, hlt⟩ b i)
      rw [List.length_append] at hi
      by_cases hlast : i.val = bytes.length
      · obtain rfl : i = ⟨f.used, hlt⟩ := Fin.ext (hlast.trans hat.symm)
        rw [Function.update_self, hlast, List.getElem?_concat_length]
      · have hi' : i.val < bytes.length := by
          have : i.val < bytes.length + 1 := hi
          omega
        rw [Function.update_of_ne fun heq => hlast (by rw [heq]; exact hat),
          List.getElem?_append_left hi']
        exact h.header i hi'
    · rw [List.length_append] at hlong ⊢
      have h9 : f.used + 1 = 9 := by
        have : 9 ≤ bytes.length + 1 := hlong
        omega
      rw [RawFrames.known_remaining h9, RawFrames.known_length, List.length_singleton]
      omega
  · have hlong : 9 ≤ bytes.length := by omega
    have hheld := h.remaining hlong
    rw [RawFrames.advance_payload hfull hremaining]
    refine ⟨by rw [List.length_append]; show f.used = _; omega, fun i hi => ?_, fun _ => ?_⟩
    · have hi' : i.val < bytes.length := by omega
      rw [List.getElem?_append_left hi']
      exact h.header i hi'
    · rw [List.length_append]
      show f.remaining - 1 + (bytes.length + 1) = 9 + f.length
      omega

namespace Frames

/-- The step of the parser on one byte. -/
def byte (f : Frames) (b : UInt8) : Frames × Option Frame :=
  ((f.consume [b]).1, (f.consume [b]).2.2)

variable {f : Frames}

/-- **What one byte does**: it is held, or it is the last byte of a frame. -/
theorem byte_holds {bytes : List UInt8} (h : f.toRawFrames.Holds bytes) (b : UInt8) :
    match f.byte b with
    | (f', none) => f'.toRawFrames.Holds (bytes ++ [b])
    | (f', some frame) => f'.toRawFrames.Holds [] ∧ Layout (bytes ++ [b]) frame := by
  have hheld := h.advance f.waiting b
  show match ((settle (f.toRawFrames.advance [b]).1 _).1,
    (settle (f.toRawFrames.advance [b]).1 _).2) with
    | (f', none) => f'.toRawFrames.Holds (bytes ++ [b])
    | (f', some frame) => f'.toRawFrames.Holds [] ∧ Layout (bytes ++ [b]) frame
  by_cases hdone : (f.toRawFrames.advance [b]).1.used = 9
      ∧ (f.toRawFrames.advance [b]).1.remaining = 0
  · unfold settle
    simp only [dif_pos hdone]
    exact ⟨⟨rfl, fun i hi => absurd hi (Nat.not_lt_zero _), fun hlong => absurd hlong (by simp)⟩,
      hheld.layout hdone.1 hdone.2⟩
  · unfold settle
    simp only [dif_neg hdone]
    exact hheld

theorem consume_congr {g : Frames} {bs cs : List UInt8}
    (h : (f.toRawFrames.advance bs).1 = (g.toRawFrames.advance cs).1) :
    (f.consume bs).1 = (g.consume cs).1 ∧ (f.consume bs).2.2 = (g.consume cs).2.2 := by
  simp only [consume, h, and_self]

theorem consume_one_count (f : Frames) (b : UInt8) : (f.consume [b]).2.1 = 1 := by
  have hpos := f.consume_count_pos b []
  have hle : (f.consume [b]).2.1 ≤ 1 := by
    show (f.toRawFrames.advance [b]).2 ≤ 1
    unfold RawFrames.advance
    split
    · exact min_le_left _ _
    · exact min_le_left _ _
  omega

/-- **A round is its bytes**: it reads one, or one within a frame and what a round would
read after it. -/
theorem consume_cons (f : Frames) (b : UInt8) (bs : List UInt8) :
    f.consume (b :: bs) = ((f.byte b).1, 1, (f.byte b).2) ∨
      (bs ≠ [] ∧ (f.byte b).2 = none ∧ f.consume (b :: bs) =
        (((f.byte b).1.consume bs).1, ((f.byte b).1.consume bs).2.1 + 1,
          ((f.byte b).1.consume bs).2.2)) := by
  rcases RawFrames.advance_cons f.waiting b bs with hone | ⟨hbs, hwithin, hmore⟩
  · obtain ⟨hframes, hframe⟩ := consume_congr (f := f) (g := f) (congrArg Prod.fst hone)
    have hcount : (f.consume (b :: bs)).2.1 = (f.consume [b]).2.1 := congrArg Prod.snd hone
    exact .inl (Prod.ext hframes (Prod.ext (hcount.trans (f.consume_one_count b)) hframe))
  · have hbyte : (f.byte b).1.toRawFrames = (f.toRawFrames.advance [b]).1
        ∧ (f.byte b).2 = none := by
      unfold byte consume settle
      simp only [dif_neg hwithin, and_self]
    have hrest : (f.toRawFrames.advance (b :: bs)).1
        = ((f.byte b).1.toRawFrames.advance bs).1 := by
      rw [hmore, hbyte.1]
    obtain ⟨hframes, hframe⟩ := consume_congr hrest
    have hcount : (f.consume (b :: bs)).2.1 = ((f.byte b).1.consume bs).2.1 + 1 := by
      show (f.toRawFrames.advance (b :: bs)).2 = ((f.byte b).1.toRawFrames.advance bs).2 + 1
      rw [hmore, hbyte.1]
    exact .inr ⟨hbs, hbyte.2, Prod.ext hframes (Prod.ext hcount hframe)⟩

/-- The loop over the parser: where it comes to stand, and the frames it completes. -/
def scan (f : Frames) (bytes : List UInt8) : Frames × List Frame :=
  match bytes with
  | [] => (f, [])
  | b :: bs =>
    let r := f.consume (b :: bs)
    let rest := scan r.1 ((b :: bs).drop r.2.1)
    (rest.1, r.2.2.toList ++ rest.2)
termination_by bytes.length
decreasing_by
  have hpos := f.consume_count_pos b bs
  simp only [List.length_drop, List.length_cons]
  omega

@[simp] theorem scan_nil (f : Frames) : f.scan [] = (f, []) := by rw [scan]

/-- The loop is a loop over bytes. -/
theorem scan_cons (f : Frames) (b : UInt8) (bs : List UInt8) :
    f.scan (b :: bs)
      = (((f.byte b).1.scan bs).1, (f.byte b).2.toList ++ ((f.byte b).1.scan bs).2) := by
  rw [scan]
  rcases f.consume_cons b bs with hone | ⟨hbs, hnone, hmore⟩
  · rw [hone]
    rfl
  · obtain ⟨c, cs, rfl⟩ := List.exists_cons_of_ne_nil hbs
    rw [hmore, hnone, scan.eq_def (f.byte b).1 (c :: cs)]
    rfl

/-- Where a loop comes to stand, another one goes on. -/
theorem scan_append (f : Frames) (bytes more : List UInt8) :
    f.scan (bytes ++ more)
      = (((f.scan bytes).1.scan more).1, (f.scan bytes).2 ++ ((f.scan bytes).1.scan more).2) := by
  induction bytes generalizing f with
  | nil => simp
  | cons b bs ih =>
    rw [List.cons_append, scan_cons, scan_cons, ih, List.append_assoc]

/-- **The frames of the bytes are completed, and the rest of them is held.** -/
theorem scan_framed {held : List UInt8} (h : f.toRawFrames.Holds held) (bytes : List UInt8) :
    ∃ rest, Framed (held ++ bytes) (f.scan bytes).2 rest
      ∧ (f.scan bytes).1.toRawFrames.Holds rest := by
  induction bytes generalizing f held with
  | nil =>
    rw [scan_nil, List.append_nil]
    exact ⟨held, h.framed f.waiting, h⟩
  | cons b bs ih =>
    rw [scan_cons]
    have hbyte := byte_holds h b
    cases hframe : f.byte b with
    | mk f' completed =>
      rw [hframe] at hbyte
      cases completed with
      | none =>
        obtain ⟨rest, hframed, hholds⟩ := ih hbyte
        rw [List.append_assoc] at hframed
        exact ⟨rest, hframed, hholds⟩
      | some frame =>
        obtain ⟨rest, hframed, hholds⟩ := ih hbyte.1
        have hbytes : held ++ b :: bs = (held ++ [b]) ++ bs := by simp
        rw [hbytes]
        exact ⟨rest, .frame hbyte.2 hframed, hholds⟩

/-- The loop on one read after another. -/
def scanAll (f : Frames) : List (List UInt8) → Frames × List Frame
  | [] => (f, [])
  | bytes :: reads =>
    (((f.scan bytes).1.scanAll reads).1, (f.scan bytes).2 ++ ((f.scan bytes).1.scanAll reads).2)

/-- **How bytes are cut does not matter.** -/
theorem scanAll_eq (f : Frames) (reads : List (List UInt8)) :
    f.scanAll reads = f.scan reads.flatten := by
  induction reads generalizing f with
  | nil => rw [List.flatten_nil, scan_nil]; rfl
  | cons bytes reads ih => rw [List.flatten_cons, scan_append, scanAll, ih]

theorem holds_nil : ({} : Frames).toRawFrames.Holds [] where
  used := rfl
  header := fun _ hi => absurd hi (Nat.not_lt_zero _)
  remaining := fun hlong => absurd hlong (by simp)

end Frames

/-! ## The writing side -/

namespace Wire

/-- **The ledger sees the frames that are completed**, in their order. -/
theorem sent_eq (w : Wire) (bytes : List UInt8) :
    w.sent bytes = ((w.written.scan bytes).2.foldlM onSent w.headers).map
      fun headers => { headers, written := (w.written.scan bytes).1 } := by
  fun_induction sent w bytes with
  | case1 w => rw [Frames.scan_nil]; rfl
  | case2 w b bs r hnone ih =>
    rw [ih, Frames.scan.eq_def w.written (b :: bs)]
    show _ = ((r.2.2.toList ++ _).foldlM onSent w.headers).map _
    rw [hnone]
    rfl
  | case3 w b bs r frame hframe hfail =>
    rw [Frames.scan.eq_def w.written (b :: bs)]
    show _ = ((r.2.2.toList ++ _).foldlM onSent w.headers).map _
    rw [hframe]
    show _ = ((frame :: _).foldlM onSent w.headers).map _
    rw [List.foldlM_cons, hfail]
    rfl
  | case4 w b bs r frame hframe headers hsent ih =>
    rw [ih, Frames.scan.eq_def w.written (b :: bs)]
    show _ = ((r.2.2.toList ++ _).foldlM onSent w.headers).map _
    rw [hframe]
    show _ = ((frame :: _).foldlM onSent w.headers).map _
    rw [List.foldlM_cons, hsent]
    rfl

theorem foldlM_sent (w : Wire) (writes : List (List UInt8)) :
    writes.foldlM sent w = ((w.written.scanAll writes).2.foldlM onSent w.headers).map
      fun headers => { headers, written := (w.written.scanAll writes).1 } := by
  induction writes generalizing w with
  | nil => rfl
  | cons bytes writes ih =>
    rw [List.foldlM_cons, sent_eq, Frames.scanAll, List.foldlM_append]
    cases hsent : (w.written.scan bytes).2.foldlM onSent w.headers with
    | none => rfl
    | some headers => exact ih _

end Wire

/-! ## The reading side -/

/-- The reading side of a connection: its position, how much of the preface is still
to come, whether a header block is open, and when a stalled read ends it. -/
structure Reader where
  read : Frames := {}
  preface : ℕ := 24
  headerBlock : Bool := false
  deadline : Option ℕ
  timeout : ℕ

namespace Reader

def new (initial timeout : ℕ) : Reader := { deadline := some initial, timeout }

/-- Bytes are awaited from the first one on. -/
def arm (w : Reader) (now : ℕ) : Reader :=
  if w.deadline.isNone then { w with deadline := some (now + w.timeout) } else w

def onReceived (w : Reader) (frame : Frame) : Reader :=
  let block := if frame.kind = 1 then decide (frame.flags &&& 4 = 0) else w.headerBlock
  let block := if frame.kind = 9 ∧ frame.flags &&& 4 ≠ 0 then false else block
  { w with headerBlock := block, deadline := if block then w.deadline else none }

/-- The loop over bytes behind the preface, with the frames it completes. -/
def receiving (w : Reader) (now : ℕ) (bytes : List UInt8) : Reader × List Frame :=
  match bytes with
  | [] => (w, [])
  | b :: bs =>
    let armed := w.arm now
    let r := armed.read.consume (b :: bs)
    match r.2.2 with
    | none => receiving { armed with read := r.1 } now ((b :: bs).drop r.2.1)
    | some frame =>
      let rest := receiving ({ armed with read := r.1 }.onReceived frame) now
        ((b :: bs).drop r.2.1)
      (rest.1, frame :: rest.2)
termination_by bytes.length
decreasing_by
  all_goals
    have hpos := (w.arm now).read.consume_count_pos b bs
    simp only [List.length_drop, List.length_cons]
    omega

/-- The bytes the transport has read. -/
def received (w : Reader) (now : ℕ) (bytes : List UInt8) : Reader × List Frame :=
  let skip := min bytes.length w.preface
  receiving { w with preface := w.preface - skip } now (bytes.drop skip)

/-- One read after another, each at its time. -/
def receivedAll (w : Reader) : List (ℕ × List UInt8) → Reader × List Frame
  | [] => (w, [])
  | (now, bytes) :: reads =>
    (((w.received now bytes).1.receivedAll reads).1,
      (w.received now bytes).2 ++ ((w.received now bytes).1.receivedAll reads).2)

@[simp] theorem arm_read (w : Reader) (now : ℕ) : (w.arm now).read = w.read := by
  unfold arm
  split <;> rfl

@[simp] theorem arm_headerBlock (w : Reader) (now : ℕ) :
    (w.arm now).headerBlock = w.headerBlock := by
  unfold arm
  split <;> rfl

@[simp] theorem arm_preface (w : Reader) (now : ℕ) : (w.arm now).preface = w.preface := by
  unfold arm
  split <;> rfl

theorem arm_deadline (w : Reader) (now : ℕ) : (w.arm now).deadline ≠ none := by
  unfold arm
  split
  · exact Option.some_ne_none _
  · next h => exact fun hnone => h (by rw [hnone]; rfl)

variable {w : Reader}

theorem arm_of_ne_none (h : w.deadline ≠ none) (now : ℕ) : w.arm now = w := by
  unfold arm
  rw [if_neg (by simpa using h)]

/-- The step of the loop on one byte. -/
def byte (w : Reader) (now : ℕ) (b : UInt8) : Reader × Option Frame :=
  let next : Reader := { w.arm now with read := (w.read.byte b).1 }
  match (w.read.byte b).2 with
  | none => (next, none)
  | some frame => (next.onReceived frame, some frame)

theorem byte_of_none {b : UInt8} {f : Frames} (h : w.read.byte b = (f, none)) (now : ℕ) :
    w.byte now b = ({ w.arm now with read := f }, none) := by
  unfold byte
  rw [h]

theorem byte_of_some {b : UInt8} {f : Frames} {frame : Frame}
    (h : w.read.byte b = (f, some frame)) (now : ℕ) :
    w.byte now b = ({ w.arm now with read := f }.onReceived frame, some frame) := by
  unfold byte
  rw [h]

@[simp] theorem receiving_nil (w : Reader) (now : ℕ) : w.receiving now [] = (w, []) := by
  rw [receiving]

/-- The loop is a loop over bytes. -/
theorem receiving_cons (w : Reader) (now : ℕ) (b : UInt8) (bs : List UInt8) :
    w.receiving now (b :: bs) = (((w.byte now b).1.receiving now bs).1,
      (w.byte now b).2.toList ++ ((w.byte now b).1.receiving now bs).2) := by
  rw [receiving]
  unfold byte
  rcases w.read.consume_cons b bs with hone | ⟨hbs, hnone, hmore⟩
  · simp only [arm_read, hone]
    cases (w.read.byte b).2 <;> rfl
  · obtain ⟨c, cs, rfl⟩ := List.exists_cons_of_ne_nil hbs
    simp only [arm_read, hmore, hnone]
    -- The deadline stands within the frame, so it is not set anew.
    rw [receiving.eq_def _ _ (c :: cs)]
    have harmed : ({ w.arm now with read := (w.read.byte b).1 } : Reader).deadline ≠ none :=
      w.arm_deadline now
    simp only [arm_of_ne_none harmed]
    rfl

theorem receiving_scan (w : Reader) (now : ℕ) (bytes : List UInt8) :
    (w.receiving now bytes).1.read = (w.read.scan bytes).1
      ∧ (w.receiving now bytes).2 = (w.read.scan bytes).2 := by
  induction bytes generalizing w with
  | nil =>
    rw [receiving_nil, Frames.scan_nil]
    exact ⟨rfl, rfl⟩
  | cons b bs ih =>
    have hbyte : (w.byte now b).1.read = (w.read.byte b).1
        ∧ (w.byte now b).2 = (w.read.byte b).2 := by
      unfold byte
      cases (w.read.byte b).2 <;> exact ⟨rfl, rfl⟩
    rw [receiving_cons, Frames.scan_cons, hbyte.2, ← hbyte.1]
    exact ⟨(ih _).1, congrArg _ (ih _).2⟩

@[simp] theorem receiving_preface (w : Reader) (now : ℕ) (bytes : List UInt8) :
    (w.receiving now bytes).1.preface = w.preface := by
  induction bytes generalizing w with
  | nil => rw [receiving_nil]
  | cons b bs ih =>
    rw [receiving_cons]
    show ((w.byte now b).1.receiving now bs).1.preface = _
    rw [ih]
    unfold byte
    cases (w.read.byte b).2 <;> exact w.arm_preface now

end Reader

/-! ## The deadline -/

/-- **A header block is open**: a HEADERS frame did not end it, and no frame after it
did. -/
def HeaderBlockOpen (frames : List Frame) : Prop :=
  Since (fun f : Frame => f.kind = 1 ∧ f.flags &&& 4 = 0)
    (fun f : Frame => (f.kind = 1 ∨ f.kind = 9) ∧ f.flags &&& 4 ≠ 0) frames

namespace Reader

/-- **What the reading side knows of the bytes** behind the preface. -/
structure Tracks (w : Reader) (bytes : List UInt8) (frames : List Frame) (rest : List UInt8) :
    Prop where
  framed : Framed bytes frames rest
  holds : w.read.toRawFrames.Holds rest
  headerBlock : w.headerBlock = true ↔ HeaderBlockOpen frames
  deadline : w.deadline = none ↔ rest = [] ∧ frames ≠ [] ∧ ¬ HeaderBlockOpen frames

variable {w : Reader} {bytes rest : List UInt8} {frames : List Frame}

theorem onReceived_headerBlock (h : w.headerBlock = true ↔ HeaderBlockOpen frames) (frame : Frame) :
    (w.onReceived frame).headerBlock = true ↔ HeaderBlockOpen (frames ++ [frame]) := by
  unfold HeaderBlockOpen at h ⊢
  rw [since_concat, ← h]
  unfold onReceived
  by_cases hheaders : frame.kind = 1
  · have hne : frame.kind ≠ 9 := by rw [hheaders]; decide
    simp only [hheaders]
    by_cases hend : frame.flags &&& 4 = 0 <;> simp [hend]
  · by_cases hcontinued : frame.kind = 9 <;> by_cases hend : frame.flags &&& 4 = 0 <;>
      simp [hheaders, hcontinued, hend]

/-- **What one byte changes.** -/
theorem Tracks.byte (h : w.Tracks bytes frames rest) (now : ℕ) (b : UInt8) :
    ∃ rest', (w.byte now b).1.Tracks (bytes ++ [b]) (frames ++ (w.byte now b).2.toList) rest' := by
  have hbyte := Frames.byte_holds h.holds b
  cases hframe : w.read.byte b with
  | mk f' completed =>
    rw [hframe] at hbyte
    cases completed with
    | none =>
      have hframed : Framed (rest ++ [b]) [] (rest ++ [b]) :=
        RawFrames.Holds.framed hbyte f'.waiting
      rw [byte_of_none hframe]
      refine ⟨rest ++ [b], h.framed.append hframed, hbyte, ?_, ?_⟩
      · show (w.arm now).headerBlock = true ↔ HeaderBlockOpen (frames ++ [])
        rw [arm_headerBlock, List.append_nil]
        exact h.headerBlock
      · -- The deadline stands while a frame is awaited.
        refine iff_of_false (w.arm_deadline now) fun hidle => ?_
        exact absurd hidle.1 (by simp)
    | some frame =>
      have hframed : Framed (rest ++ [b]) [frame] [] := by
        rw [← List.append_nil (rest ++ [b])]
        exact .frame hbyte.2 framed_nil
      have hblock : ({ w.arm now with read := f' } : Reader).headerBlock = true
          ↔ HeaderBlockOpen frames := by
        show (w.arm now).headerBlock = true ↔ _
        rw [arm_headerBlock]
        exact h.headerBlock
      have hopen := onReceived_headerBlock hblock frame
      rw [byte_of_some hframe]
      refine ⟨[], h.framed.append hframed, hbyte.1, hopen, ?_⟩
      show (if (onReceived _ frame).headerBlock then (w.arm now).deadline else none) = none
        ↔ _ ∧ _ ∧ ¬ HeaderBlockOpen (frames ++ [frame])
      rw [← hopen]
      split
      · next hstands => exact iff_of_false (w.arm_deadline now) fun hidle => hidle.2.2 hstands
      · next hidle => exact iff_of_true rfl ⟨rfl, by simp, hidle⟩

/-- What more bytes change. -/
theorem Tracks.receiving (h : w.Tracks bytes frames rest) (now : ℕ) (more : List UInt8) :
    ∃ rest', (w.receiving now more).1.Tracks (bytes ++ more)
      (frames ++ (w.receiving now more).2) rest' := by
  induction more generalizing w bytes frames rest with
  | nil =>
    rw [receiving_nil, List.append_nil, List.append_nil]
    exact ⟨rest, h⟩
  | cons b bs ih =>
    obtain ⟨rest', hbyte⟩ := h.byte now b
    obtain ⟨rest'', hrest⟩ := ih hbyte
    rw [List.append_assoc, List.append_assoc] at hrest
    rw [receiving_cons]
    exact ⟨rest'', hrest⟩

theorem drop_min (bytes : List UInt8) (n : ℕ) : bytes.drop (min bytes.length n) = bytes.drop n := by
  rcases le_total bytes.length n with h | h
  · rw [Nat.min_eq_left h, List.drop_length, List.drop_eq_nil_of_le h]
  · rw [Nat.min_eq_right h]

theorem received_eq {read : List UInt8} (hpreface : w.preface = 24 - read.length) (now : ℕ)
    (bytes : List UInt8) :
    w.received now bytes
      = ({ w with preface := 24 - (read ++ bytes).length } : Reader).receiving now
      (bytes.drop (24 - read.length)) := by
  unfold received
  have hleft : w.preface - min bytes.length w.preface = 24 - (read ++ bytes).length := by
    rw [hpreface, List.length_append]
    omega
  dsimp only
  rw [hleft, drop_min, hpreface]

section

variable {read : List UInt8} (h : w.Tracks (read.drop 24) frames rest)
  (hpreface : w.preface = 24 - read.length)

include h hpreface

/-- **What a read changes.** -/
theorem Tracks.received (now : ℕ) (bytes : List UInt8) :
    ∃ rest', (w.received now bytes).1.Tracks ((read ++ bytes).drop 24)
      (frames ++ (w.received now bytes).2) rest' := by
  rw [received_eq hpreface, List.drop_append]
  have hskipped : ({ w with preface := 24 - (read ++ bytes).length } : Reader).Tracks
      (read.drop 24) frames rest := ⟨h.framed, h.holds, h.headerBlock, h.deadline⟩
  exact hskipped.receiving now _

/-- What all reads come to, and where they leave the parser. -/
theorem Tracks.receivedAll (reads : List (ℕ × List UInt8)) :
    (∃ rest', (w.receivedAll reads).1.Tracks ((read ++ reads.flatMap Prod.snd).drop 24)
      (frames ++ (w.receivedAll reads).2) rest')
    ∧ (w.receivedAll reads).1.read
      = (w.read.scan ((reads.flatMap Prod.snd).drop (24 - read.length))).1 := by
  induction reads generalizing w read frames rest with
  | nil =>
    show (∃ rest', w.Tracks ((read ++ []).drop 24) (frames ++ []) rest') ∧ _ = (_ : Frames)
    rw [List.append_nil, List.append_nil, List.flatMap_nil, List.drop_nil, Frames.scan_nil]
    exact ⟨⟨rest, h⟩, rfl⟩
  | cons first reads ih =>
    obtain ⟨now, bytes⟩ := first
    obtain ⟨rest', hfirst⟩ := h.received hpreface now bytes
    have hleft : (w.received now bytes).1.preface = 24 - (read ++ bytes).length := by
      rw [received_eq hpreface, receiving_preface]
    have hread : (w.received now bytes).1.read
        = (w.read.scan (bytes.drop (24 - read.length))).1 := by
      rw [received_eq hpreface]
      exact (receiving_scan _ now _).1
    obtain ⟨hrest, hstand⟩ := ih hfirst hleft
    rw [List.append_assoc, List.append_assoc] at hrest
    refine ⟨hrest, ?_⟩
    show ((w.received now bytes).1.receivedAll reads).1.read = _
    have hskip : 24 - (read ++ bytes).length = 24 - read.length - bytes.length := by
      rw [List.length_append]
      omega
    rw [hstand, hread, List.flatMap_cons, List.drop_append, Frames.scan_append, hskip]

end

theorem tracks_new (initial timeout : ℕ) : (new initial timeout).Tracks [] [] [] where
  framed := framed_nil
  holds := Frames.holds_nil
  headerBlock := iff_of_false Bool.false_ne_true not_since_nil
  deadline := iff_of_false (Option.some_ne_none _) fun h => h.2.1 rfl

end Reader

/-- **The parser finds the frames.** However the bytes that are read are cut, the
frames completed behind the preface are those of the layout, the position in the end
is the one after a single read, and the deadline is off exactly where the bytes end
with a frame and no header block is open. However the bytes that are written are cut,
the ledger is handed the frames of the layout, and the position is the one after a
single write. -/
theorem wire_frames_exact (initial timeout : ℕ) (reads : List (ℕ × List UInt8))
    (headers : Headers) (writes : List (List UInt8)) :
    (∃ frames rest, Framed ((reads.flatMap Prod.snd).drop 24) frames rest
      ∧ ((Reader.new initial timeout).receivedAll reads).2 = frames
      ∧ (((Reader.new initial timeout).receivedAll reads).1.deadline = none ↔
        rest = [] ∧ frames ≠ [] ∧ ¬ HeaderBlockOpen frames)
      ∧ ∀ now, ((Reader.new initial timeout).received now (reads.flatMap Prod.snd)).2 = frames
        ∧ ((Reader.new initial timeout).received now (reads.flatMap Prod.snd)).1.read
          = ((Reader.new initial timeout).receivedAll reads).1.read)
    ∧ ∃ frames rest, Framed writes.flatten frames rest
      ∧ (({} : Frames).scanAll writes).2 = frames
      ∧ ({} : Frames).scanAll writes = ({} : Frames).scan writes.flatten
      ∧ writes.foldlM Wire.sent { headers := headers }
        = Wire.sent { headers := headers } writes.flatten
      ∧ Wire.sent { headers := headers } writes.flatten
        = (frames.foldlM Wire.onSent headers).map fun headers =>
          { headers, written := (({} : Frames).scanAll writes).1 } := by
  have hnew : (Reader.new initial timeout).Tracks (([] : List UInt8).drop 24) [] [] :=
    Reader.tracks_new initial timeout
  constructor
  · obtain ⟨⟨rest, htracks⟩, hstand⟩ := Reader.Tracks.receivedAll hnew rfl reads
    refine ⟨_, rest, htracks.framed, rfl, htracks.deadline, fun now => ?_⟩
    -- All at once is one read.
    obtain ⟨⟨rest', honce⟩, hstand'⟩ := Reader.Tracks.receivedAll hnew rfl
      [(now, reads.flatMap Prod.snd)]
    have hwhole : ([(now, reads.flatMap Prod.snd)] : List (ℕ × List UInt8)).flatMap Prod.snd
        = reads.flatMap Prod.snd := List.append_nil _
    rw [hwhole] at honce hstand'
    have hframes := (htracks.framed.unique honce.framed).1
    have hall : ((Reader.new initial timeout).receivedAll [(now, reads.flatMap Prod.snd)]).2
        = ((Reader.new initial timeout).received now (reads.flatMap Prod.snd)).2 :=
      List.append_nil _
    exact ⟨hall.symm.trans hframes, hstand'.trans hstand.symm⟩
  · obtain ⟨rest, hframed, -⟩ := Frames.scan_framed Frames.holds_nil writes.flatten
    refine ⟨_, rest, hframed, ?_, Frames.scanAll_eq _ _, ?_, ?_⟩
    · rw [Frames.scanAll_eq]
    · rw [Wire.foldlM_sent, Wire.sent_eq, Frames.scanAll_eq]
    · rw [Wire.sent_eq, Frames.scanAll_eq]

end BitRouter.Http2
