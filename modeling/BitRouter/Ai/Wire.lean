import BitRouter.Data.Delimited

/-!
# Server-sent events

`wire.rs` writes an event or a comment as lines, each with its field's name in
front, and closes the frame by a blank line. Data is cut at every CR LF, CR and
LF, so a line of a frame holds none of its own; names and ids with one are
refused. A reader of the event-stream format therefore finds the lines that were
written (`completeLines_wire`), and in them the events (`parse_encode`).
-/

namespace BitRouter.Ai.Wire

abbrev Text := List Char

inductive Error
  | limit
  | invalidField
  deriving DecidableEq, Repr

inductive Frame
  | event (event id : Option Text) (data : Text)
  | comment (text : Text)
  deriving DecidableEq, Repr

/-- The length of a text in UTF-8. -/
def byteLen : Text → ℕ
  | [] => 0
  | c :: t => c.utf8Size + byteLen t

@[simp] theorem byteLen_append (s t : Text) : byteLen (s ++ t) = byteLen s + byteLen t := by
  induction s with
  | nil => simp [byteLen]
  | cons c s ih => simp [byteLen, ih, Nat.add_assoc]

/-! ## Writing -/

/-- `Buffer::append`. The buffer holds the text written so far. -/
def append (limit : ℕ) (t buffer : Text) : Except Error Text :=
  if byteLen t > limit - byteLen buffer then .error .limit else .ok (buffer ++ t)

def isBreak (c : Char) : Bool := c = '\r' || c = '\n'

/-- What follows the line break a text starts with. -/
def stripBreak : Text → Option Text
  | '\r' :: '\n' :: t => some t
  | '\r' :: t => some t
  | '\n' :: t => some t
  | _ => none

theorem length_of_stripBreak {s t : Text} (h : stripBreak s = some t) : t.length < s.length := by
  unfold stripBreak at h
  split at h
  · obtain rfl := Option.some.inj h
    simp only [List.length_cons]
    omega
  · obtain rfl := Option.some.inj h
    exact Nat.lt_succ_self _
  · obtain rfl := Option.some.inj h
    exact Nat.lt_succ_self _
  · cases h

/-- Write every line of a text after a field's name. -/
def lines (limit : ℕ) (field remaining buffer : Text) : Except Error Text := do
  let line := remaining.takeWhile (!isBreak ·)
  let buffer ← append limit field buffer
  let buffer ← append limit line buffer
  let buffer ← append limit ['\n'] buffer
  if (remaining.dropWhile (!isBreak ·)).isEmpty then return buffer
  match _h : stripBreak (remaining.dropWhile (!isBreak ·)) with
  | none => throw .invalidField
  | some rest => lines limit field rest buffer
termination_by remaining.length
decreasing_by
  exact (length_of_stripBreak _h).trans_le (List.dropWhile_sublist _).length_le

/-- Whether a value could bring in another field, or is no event id. -/
def injects (value : Text) : Bool := value.any fun c => isBreak c || c = Char.ofNat 0

/-- Write a field that may be absent. -/
def header (limit : ℕ) (name : Text) (value : Option Text) (buffer : Text) :
    Except Error Text :=
  match value with
  | none => .ok buffer
  | some value =>
    if injects value then .error .invalidField
    else append limit name buffer >>= append limit value >>= append limit ['\n']

def Frame.encode (limit : ℕ) : Frame → Except Error Text
  | .event name id data =>
    header limit "event: ".toList name [] >>= header limit "id: ".toList id
      >>= lines limit "data: ".toList data >>= append limit ['\n']
  | .comment text => lines limit ":".toList text [] >>= append limit ['\n']

/-! ## Reading -/

/-- An event a reader takes from a stream, with the last `event` and `id` field of its
block. -/
structure Received where
  event : Option Text
  id : Option Text
  data : Text
  deriving DecidableEq, Repr

/-- The lines of a stream that an end of line closes. -/
def completeLines (current : Text) : Text → List Text
  | [] => []
  | '\r' :: '\n' :: t => current :: completeLines [] t
  | '\r' :: t => current :: completeLines [] t
  | '\n' :: t => current :: completeLines [] t
  | c :: t => completeLines (current ++ [c]) t

/-- What the fields of a block have set so far. -/
structure Block where
  event : Option Text := none
  id : Option Text := none
  data : Text := []

/-- Process a field by its name. -/
def Block.field (b : Block) (name value : Text) : Block :=
  if name = "event".toList then { b with event := some value }
  else if name = "data".toList then { b with data := b.data ++ value ++ ['\n'] }
  else if name = "id".toList then
    if value.contains (Char.ofNat 0) then b else { b with id := some value }
  else b

/-- The value of a field: what follows the colon, without one leading space. -/
def fieldValue : Text → Text
  | ':' :: ' ' :: value => value
  | ':' :: value => value
  | _ => []

/-- Process a line that is not blank. A line that starts with a colon is a comment. -/
def Block.line (b : Block) (line : Text) : Block :=
  if line.head? = some ':' then b
  else b.field (line.takeWhile (· ≠ ':')) (fieldValue (line.dropWhile (· ≠ ':')))

/-- The event of a block; one without data has none. -/
def Block.dispatch (b : Block) : Option Received :=
  if b.data.isEmpty then none else some ⟨b.event, b.id, b.data.dropLast⟩

/-- The events of a list of lines. What no blank line closes is discarded. -/
def events (b : Block) : List Text → List Received
  | [] => []
  | line :: ls =>
    if line.isEmpty then b.dispatch.toList ++ events {} ls else events (b.line line) ls

/-- Read an event stream, which may start with a byte order mark. -/
def parse (stream : Text) : List Received :=
  events {} (completeLines []
    (if stream.head? = some (Char.ofNat 0xFEFF) then stream.tail else stream))

/-! ## What a frame says -/

/-- A text with every line break as one LF. -/
def normalizeBreaks : Text → Text
  | [] => []
  | '\r' :: '\n' :: t => '\n' :: normalizeBreaks t
  | '\r' :: t => '\n' :: normalizeBreaks t
  | c :: t => c :: normalizeBreaks t

/-- The event a frame stands for. -/
def Frame.received : Frame → Option Received
  | .event name id data => some ⟨name, id, normalizeBreaks data⟩
  | .comment _ => none

/-- Whether the name or the id of a frame could bring in another field. -/
def Frame.injects : Frame → Bool
  | .event name id _ => name.any Wire.injects || id.any Wire.injects
  | .comment _ => false

/-- The lines of a text, each after a field's name. -/
def textLines (field text : Text) : List Text :=
  (Delimited.split '\n' (normalizeBreaks text)).map (field ++ ·)

/-- The lines of a frame, the blank one included. -/
def Frame.wireLines : Frame → List Text
  | .event name id data =>
    (name.map ("event: ".toList ++ ·)).toList ++ (id.map ("id: ".toList ++ ·)).toList
      ++ textLines "data: ".toList data ++ [[]]
  | .comment text => textLines ":".toList text ++ [[]]

/-- Lines, each closed by LF. -/
def closed (ls : List Text) : Text := ls.flatMap (· ++ ['\n'])

/-- The whole encoding of a frame, whatever its length. -/
def Frame.wire (f : Frame) : Text := closed f.wireLines

/-! ## What is written -/

def Writes (limit : ℕ) (w : Text → Except Error Text) (t : Text) : Prop :=
  ∀ buffer, byteLen buffer ≤ limit →
    w buffer = if byteLen (buffer ++ t) ≤ limit then .ok (buffer ++ t) else .error .limit

variable {limit : ℕ} {w v : Text → Except Error Text} {t u : Text}

theorem writes_append (t : Text) : Writes limit (append limit t) t := by
  intro buffer hb
  unfold append
  rw [byteLen_append]
  by_cases h : byteLen t > limit - byteLen buffer
  · rw [if_pos h, if_neg (by omega)]
  · rw [if_neg h, if_pos (by omega)]

theorem writes_ok : Writes limit Except.ok [] := by
  intro buffer hb
  simp [hb]

theorem Writes.bind (hw : Writes limit w t) (hv : Writes limit v u) :
    Writes limit (fun b => w b >>= v) (t ++ u) := by
  intro buffer hb
  show w buffer >>= v = _
  rw [hw buffer hb]
  by_cases h : byteLen (buffer ++ t) ≤ limit
  · rw [if_pos h]
    show v (buffer ++ t) = _
    rw [hv _ h, List.append_assoc]
  · rw [if_neg h, if_neg]
    · rfl
    · rw [← List.append_assoc, byteLen_append]
      omega

/-! ## The lines of a text -/

theorem normalizeBreaks_cons {c : Char} (hc : isBreak c = false) (t : Text) :
    normalizeBreaks (c :: t) = c :: normalizeBreaks t := by
  have hr : c ≠ '\r' := fun h => by simp [h, isBreak] at hc
  rw [normalizeBreaks]
  · exact fun _ h _ => hr h
  · exact hr

variable {line : Text}

theorem normalizeBreaks_append (hl : ∀ c ∈ line, isBreak c = false) (t : Text) :
    normalizeBreaks (line ++ t) = line ++ normalizeBreaks t := by
  induction line with
  | nil => rfl
  | cons c line ih =>
    rw [List.cons_append, normalizeBreaks_cons (hl c List.mem_cons_self),
      ih fun c hc => hl c (List.mem_cons_of_mem _ hc), List.cons_append]

/-- **A break is one LF.** -/
theorem normalizeBreaks_stripBreak {s rest : Text} (h : stripBreak s = some rest) :
    normalizeBreaks s = '\n' :: normalizeBreaks rest := by
  unfold stripBreak at h
  split at h
  · obtain rfl := Option.some.inj h
    rw [normalizeBreaks]
  · rename_i hne
    obtain rfl := Option.some.inj h
    rw [normalizeBreaks]
    exact hne
  · obtain rfl := Option.some.inj h
    rw [normalizeBreaks]
    · exact fun _ h _ => absurd h (by decide)
    · decide
  · cases h

theorem stripBreak_isSome {c : Char} (hc : isBreak c = true) (t : Text) :
    ∃ rest, stripBreak (c :: t) = some rest := by
  rcases (by simpa [isBreak] using hc : c = '\r' ∨ c = '\n') with rfl | rfl
  · unfold stripBreak
    split <;> simp_all
  · exact ⟨t, rfl⟩

theorem line_cases (s : Text) :
    (s.dropWhile (!isBreak ·) = [] ∧ s.takeWhile (!isBreak ·) = s)
      ∨ ∃ rest, stripBreak (s.dropWhile (!isBreak ·)) = some rest := by
  cases hd : s.dropWhile (!isBreak ·) with
  | nil =>
    refine .inl ⟨rfl, ?_⟩
    have h := List.takeWhile_append_dropWhile (p := (!isBreak ·)) (l := s)
    rwa [hd, List.append_nil] at h
  | cons c t =>
    have hc : isBreak c = true := by
      have hne : s.dropWhile (!isBreak ·) ≠ [] := by simp [hd]
      simpa [hd] using List.head_dropWhile_not (!isBreak ·) hne
    exact .inr (stripBreak_isSome hc t)

theorem takeWhile_line (s : Text) : ∀ c ∈ s.takeWhile (!isBreak ·), isBreak c = false := by
  intro c hc
  simpa using List.all_eq_true.mp (List.all_takeWhile (p := (!isBreak ·)) (l := s)) c hc

theorem textLines_last (hl : ∀ c ∈ line, isBreak c = false) (field : Text) :
    textLines field line = [field ++ line] := by
  have hn : normalizeBreaks line = line := by
    simpa [normalizeBreaks] using normalizeBreaks_append hl []
  rw [textLines, hn, Delimited.split_of_notMem]
  · rfl
  · exact fun hm => by simpa [isBreak] using hl _ hm

theorem textLines_more {s rest : Text} (h : stripBreak (s.dropWhile (!isBreak ·)) = some rest)
    (field : Text) :
    textLines field s = (field ++ s.takeWhile (!isBreak ·)) :: textLines field rest := by
  have hn : normalizeBreaks s = s.takeWhile (!isBreak ·) ++ '\n' :: normalizeBreaks rest := by
    rw [← normalizeBreaks_stripBreak h, ← normalizeBreaks_append (takeWhile_line s),
      List.takeWhile_append_dropWhile]
  rw [textLines, hn, Delimited.split_append_cons]
  · rfl
  · exact fun hm => by simpa [isBreak] using takeWhile_line s _ hm

/-- **What the loop writes**: every line of the text, after the field's name. -/
theorem writes_lines (field s : Text) :
    Writes limit (lines limit field s) (closed (textLines field s)) := by
  induction hn : s.length using Nat.strong_induction_on generalizing s with
  | _ n ih =>
    rcases line_cases s with ⟨hd, ht⟩ | ⟨rest, hr⟩
    · have heq : lines limit field s = fun b => append limit field b
          >>= fun b => append limit s b >>= append limit ['\n'] := by
        funext b
        rw [lines]
        simp [hd, ht]
      have hl : ∀ c ∈ s, isBreak c = false := ht ▸ takeWhile_line s
      rw [heq, textLines_last hl]
      simpa [closed] using (writes_append field).bind
        ((writes_append s).bind (writes_append ['\n']))
    · have heq : lines limit field s = fun b => append limit field b
          >>= fun b => append limit (s.takeWhile (!isBreak ·)) b
          >>= fun b => append limit ['\n'] b >>= lines limit field rest := by
        funext b
        rw [lines]
        have hne : (s.dropWhile (!isBreak ·)).isEmpty = false := by
          cases hd : s.dropWhile (!isBreak ·) with
          | nil => simp [hd, stripBreak] at hr
          | cons => rfl
        simp only [hne]
        refine congrArg (append limit field b >>= ·) (funext fun b => ?_)
        refine congrArg (append limit _ b >>= ·) (funext fun b => ?_)
        refine congrArg (append limit _ b >>= ·) (funext fun b => ?_)
        rw [if_neg (by decide)]
        split
        · rename_i h
          cases hr.symm.trans h
        · rename_i r h
          rw [Option.some.inj (h.symm.trans hr)]
      have hlt : rest.length < n :=
        hn ▸ (length_of_stripBreak hr).trans_le (List.dropWhile_sublist _).length_le
      rw [heq, textLines_more hr]
      simpa [closed] using (writes_append field).bind
        ((writes_append _).bind ((writes_append ['\n']).bind (ih _ hlt rest rfl)))

/-! ## What a frame writes -/

theorem writes_header (name : Text) {value : Option Text} (hv : ∀ v ∈ value, injects v = false) :
    Writes limit (header limit name value) (closed (value.map (name ++ ·)).toList) := by
  cases value with
  | none => exact writes_ok
  | some v =>
    have heq : header limit name (some v)
        = fun b => append limit name b >>= append limit v >>= append limit ['\n'] := by
      funext b
      simp [header, hv v rfl]
    rw [heq]
    have h : Writes limit _ _ := ((writes_append name).bind (writes_append v)).bind
      (writes_append ['\n'])
    simpa [closed] using h

theorem closed_append (ls ms : List Text) : closed (ls ++ ms) = closed ls ++ closed ms :=
  List.flatMap_append

variable {f : Frame}

/-- **The encoding of a frame whose fields can be written**: all of it, if it fits. -/
theorem encode_eq (hf : f.injects = false) (limit : ℕ) :
    f.encode limit = if byteLen f.wire ≤ limit then .ok f.wire else .error .limit := by
  have hend : Writes limit (append limit ['\n']) ['\n'] := writes_append _
  cases f with
  | event name id data =>
    obtain ⟨hn, hi⟩ : (∀ v ∈ name, injects v = false) ∧ ∀ v ∈ id, injects v = false := by
      cases name <;> cases id <;> simp_all [Frame.injects]
    have h := (((writes_header "event: ".toList hn).bind (writes_header "id: ".toList hi)).bind
      (writes_lines "data: ".toList data)).bind hend [] (Nat.zero_le _)
    simpa [Frame.encode, Frame.wire, Frame.wireLines, closed_append, closed] using h
  | comment text =>
    have h := ((writes_lines ":".toList text).bind hend) [] (Nat.zero_le _)
    simpa [Frame.encode, Frame.wire, Frame.wireLines, closed_append, closed] using h

theorem header_injects {v : Text} (hv : injects v = true) (name b : Text) :
    header limit name (some v) b = .error .invalidField := by
  simp [header, hv]

/-- A field that could bring in another is refused. -/
theorem encode_of_injects (hf : f.injects = true) (limit : ℕ) :
    ∃ e, f.encode limit = .error e := by
  cases f with
  | comment => cases hf
  | event name id data =>
    rcases (Bool.or_eq_true _ _).mp hf with hn | hi
    · cases name with
      | none => cases hn
      | some v => exact ⟨_, by rw [Frame.encode, header_injects hn]; rfl⟩
    · cases id with
      | none => cases hi
      | some v =>
        cases hb : header limit "event: ".toList name [] with
        | error e => exact ⟨e, by rw [Frame.encode, hb]; rfl⟩
        | ok b =>
          have hv : header limit "id: ".toList (some v) b = _ := header_injects hi _ b
          refine ⟨.invalidField, ?_⟩
          rw [Frame.encode, hb]
          show header limit "id: ".toList (some v) b >>= _ >>= _ = _
          rw [hv]
          rfl

/-! ## What is read -/

theorem completeLines_append (hl : ∀ c ∈ line, isBreak c = false) (current t : Text) :
    completeLines current (line ++ '\n' :: t) = (current ++ line) :: completeLines [] t := by
  induction line generalizing current with
  | nil => simp [completeLines]
  | cons c line ih =>
    have hc : c ≠ '\r' ∧ c ≠ '\n' := by simpa [isBreak] using hl c List.mem_cons_self
    have h := ih (fun c hm => hl c (List.mem_cons_of_mem _ hm)) (current ++ [c])
    rw [List.append_assoc] at h
    rw [List.cons_append, completeLines]
    · exact h
    · exact fun _ h _ => hc.1 h
    · exact hc.1
    · exact hc.2

theorem completeLines_closed {ls : List Text} (hl : ∀ l ∈ ls, ∀ c ∈ l, isBreak c = false) :
    completeLines [] (closed ls) = ls := by
  induction ls with
  | nil => rfl
  | cons l ls ih =>
    have h := completeLines_append (hl l List.mem_cons_self) [] (closed ls)
    rw [ih fun l hm => hl l (List.mem_cons_of_mem _ hm)] at h
    simpa [closed] using h

theorem normalizeBreaks_notMem (s : Text) : '\r' ∉ normalizeBreaks s := by
  induction s using normalizeBreaks.induct with
  | case1 => simp [normalizeBreaks]
  | case2 t ih => simp [normalizeBreaks, ih]
  | case3 t hne ih =>
    rw [normalizeBreaks]
    · simp [ih]
    · exact hne
  | case4 c t h1 h2 ih =>
    rw [normalizeBreaks]
    · simp [ih, Ne.symm h2]
    · exact h1
    · exact h2

variable {l : Text}

theorem isBreak_of_any (h : l.any isBreak = false) : ∀ c ∈ l, isBreak c = false := by
  simpa using h

/-- No line of a text holds a break. -/
theorem mem_textLines {field text : Text} (hf : ∀ c ∈ field, isBreak c = false)
    (hl : l ∈ textLines field text) : ∀ c ∈ l, isBreak c = false := by
  obtain ⟨piece, hp, rfl⟩ := List.mem_map.mp hl
  intro c hc
  rcases List.mem_append.mp hc with hc | hc
  · exact hf c hc
  · have hn : c ≠ '\n' := fun h => Delimited.notMem_of_mem_split '\n' hp (h ▸ hc)
    have hr : c ≠ '\r' := by
      rintro rfl
      exact normalizeBreaks_notMem text (Delimited.mem_of_mem_split '\n' hp hc)
    simp [isBreak, hn, hr]

theorem isBreak_of_injects {v : Text} (hv : injects v = false) :
    ∀ c ∈ v, isBreak c = false ∧ c ≠ Char.ofNat 0 := by
  simpa [injects] using hv

theorem mem_wireLines (hf : f.injects = false) (hl : l ∈ f.wireLines) :
    ∀ c ∈ l, isBreak c = false := by
  have field (name : Text) (hname : ∀ c ∈ name, isBreak c = false) {v : Text}
      (hv : injects v = false) : ∀ c ∈ name ++ v, isBreak c = false := by
    intro c hc
    rcases List.mem_append.mp hc with hc | hc
    · exact hname c hc
    · exact (isBreak_of_injects hv c hc).1
  cases f with
  | event name id data =>
    obtain ⟨hn, hi⟩ := (Bool.or_eq_false_iff).mp hf
    simp only [Frame.wireLines, List.mem_append] at hl
    rcases hl with ((hl | hl) | hl) | hl
    · cases name with
      | none => cases hl
      | some v => exact List.mem_singleton.mp hl ▸ field _ (isBreak_of_any rfl) hn
    · cases id with
      | none => cases hl
      | some v => exact List.mem_singleton.mp hl ▸ field _ (isBreak_of_any rfl) hi
    · exact mem_textLines (isBreak_of_any rfl) hl
    · rw [List.mem_singleton.mp hl]; simp
  | comment text =>
    simp only [Frame.wireLines, List.mem_append] at hl
    rcases hl with hl | hl
    · exact mem_textLines (isBreak_of_any rfl) hl
    · rw [List.mem_singleton.mp hl]; simp

/-- **The lines that were written are read.** -/
theorem completeLines_wire {fs : List Frame} (hf : ∀ f ∈ fs, f.injects = false) :
    completeLines [] (fs.flatMap Frame.wire) = fs.flatMap Frame.wireLines := by
  have h : fs.flatMap Frame.wire = closed (fs.flatMap Frame.wireLines) := by
    rw [closed, List.flatMap_assoc]
    rfl
  rw [h]
  refine completeLines_closed fun l hl => ?_
  obtain ⟨f, hm, hl⟩ := List.mem_flatMap.mp hl
  exact mem_wireLines (hf f hm) hl

/-- Lines that are not blank set fields of the block that is open. -/
theorem events_append {ls : List Text} (hl : [] ∉ ls) (b : Block) (rest : List Text) :
    events b (ls ++ rest) = events (ls.foldl Block.line b) rest := by
  induction ls generalizing b with
  | nil => rfl
  | cons l ls ih =>
    obtain ⟨hne, hls⟩ := not_or.mp (mt List.mem_cons.mpr hl)
    have hemp : l.isEmpty = false := by cases l <;> simp_all
    simp [events, hemp, ih hls]

theorem line_data (b : Block) (v : Text) :
    b.line ("data: ".toList ++ v) = { b with data := b.data ++ v ++ ['\n'] } := by
  rfl

theorem line_id (b : Block) {v : Text} (hv : injects v = false) :
    b.line ("id: ".toList ++ v) = { b with id := some v } := by
  have hn : v.contains (Char.ofNat 0) = false := by
    simpa using fun hm => (isBreak_of_injects hv _ hm).2 rfl
  show (if v.contains (Char.ofNat 0) then b else { b with id := some v }) = _
  rw [hn]
  rfl

theorem line_comment (b : Block) (v : Text) : b.line (":".toList ++ v) = b := rfl

theorem foldl_event (b : Block) (value : Option Text) :
    (value.map ("event: ".toList ++ ·)).toList.foldl Block.line b
      = { b with event := value <|> b.event } := by
  cases value <;> rfl

theorem foldl_id (b : Block) {value : Option Text} (hv : value.any injects = false) :
    (value.map ("id: ".toList ++ ·)).toList.foldl Block.line b
      = { b with id := value <|> b.id } := by
  cases value with
  | none => rfl
  | some v => exact line_id b hv

theorem foldl_data (b : Block) (text : Text) :
    (textLines "data: ".toList text).foldl Block.line b
      = { b with data := b.data ++ normalizeBreaks text ++ ['\n'] } := by
  have lines (ps : List Text) (b : Block) :
      (ps.map ("data: ".toList ++ ·)).foldl Block.line b
          = { b with data := b.data ++ closed ps } := by
    induction ps generalizing b with
    | nil => simp [closed]
    | cons p ps ih =>
      rw [List.map_cons, List.foldl_cons, line_data, ih]
      simp [closed]
  rw [textLines, lines, closed, Delimited.flatMap_split, List.append_assoc]

theorem foldl_comment (b : Block) (text : Text) :
    (textLines ":".toList text).foldl Block.line b = b := by
  have lines (ps : List Text) : (ps.map (":".toList ++ ·)).foldl Block.line b = b := by
    induction ps with
    | nil => rfl
    | cons p ps ih => rw [List.map_cons, List.foldl_cons, line_comment, ih]
  exact lines _

/-- **A frame is read as its event.** -/
theorem events_wireLines (hf : f.injects = false) (rest : List Text) :
    events {} (f.wireLines ++ rest) = f.received.toList ++ events {} rest := by
  have blank (b : Block) : events b ([] :: rest) = b.dispatch.toList ++ events {} rest := rfl
  have hne {field : Text} (hfield : field ≠ []) (text : Text) : [] ∉ textLines field text := by
    intro h
    obtain ⟨p, -, hp⟩ := List.mem_map.mp h
    exact hfield (List.append_eq_nil_iff.mp hp).1
  cases f with
  | event name id data =>
    obtain ⟨hn, hi⟩ := (Bool.or_eq_false_iff).mp hf
    rw [Frame.wireLines, List.append_assoc, events_append, List.foldl_append, List.foldl_append,
      foldl_event, foldl_id _ hi, foldl_data, List.singleton_append, blank]
    · simp [Block.dispatch, Frame.received]
    · simp [hne]
  | comment text =>
    rw [Frame.wireLines, List.append_assoc, events_append (hne (by decide) text), foldl_comment]
    rfl

/-! ## Main results -/

/-- **What is refused.** -/
theorem encode_fails_iff (f : Frame) (limit : ℕ) :
    (∃ e, f.encode limit = .error e) ↔ f.injects = true ∨ limit < byteLen f.wire := by
  cases hf : f.injects with
  | true => simp [encode_of_injects hf]
  | false =>
    rw [encode_eq hf]
    split <;> simp_all

theorem encode_ok {t : Text} (h : f.encode limit = .ok t) :
    f.injects = false ∧ t = f.wire := by
  have hf : f.injects = false := by
    cases hf : f.injects with
    | false => rfl
    | true =>
      obtain ⟨e, he⟩ := encode_of_injects hf limit
      cases he.symm.trans h
  rw [encode_eq hf] at h
  split at h
  · exact ⟨hf, (Except.ok.inj h).symm⟩
  · cases h

/-- A frame does not start with a byte order mark. -/
theorem head_wire (f : Frame) (t : Text) : (f.wire ++ t).head? ≠ some (Char.ofNat 0xFEFF) := by
  have text (field : Text) (c : Char) (hc : field.head? = some c) (text t : Text) :
      (closed (textLines field text) ++ t).head? = some c := by
    cases hs : Delimited.split '\n' (normalizeBreaks text) with
    | nil => exact absurd hs (Delimited.split_ne_nil '\n' _)
    | cons p ps =>
      cases field with
      | nil => cases hc
      | cons => simpa [textLines, hs, closed] using hc
  cases f with
  | comment s =>
    rw [Frame.wire, Frame.wireLines, closed_append, List.append_assoc, text _ ':' rfl]
    decide
  | event name id data =>
    cases name with
    | some v => exact (by decide : (some 'e' ≠ some (Char.ofNat 0xFEFF)))
    | none =>
      cases id with
      | some v => exact (by decide : (some 'i' ≠ some (Char.ofNat 0xFEFF)))
      | none =>
        show (closed (textLines "data: ".toList data ++ [[]]) ++ t).head? ≠ _
        rw [closed_append, List.append_assoc, text _ 'd' rfl]
        decide

theorem events_flatMap {frames : List Frame} (hf : ∀ f ∈ frames, f.injects = false) :
    events {} (frames.flatMap Frame.wireLines) = frames.filterMap Frame.received := by
  induction frames with
  | nil => rfl
  | cons f frames ih =>
    rw [List.flatMap_cons, events_wireLines (hf f List.mem_cons_self),
      ih fun f hm => hf f (List.mem_cons_of_mem _ hm)]
    cases hr : f.received <;> simp [hr]

/-- **Frames are read back**, and exactly those are refused that could not be. The
encodings of frames, one after the other, are read as the events among them. -/
theorem parse_encode (frames : List Frame) (texts : List Text)
    (h : List.Forall₂ (fun f t => ∃ limit, f.encode limit = .ok t) frames texts) :
    parse texts.flatten = frames.filterMap Frame.received
      ∧ ∀ (f : Frame) (limit : ℕ),
        (∃ e, f.encode limit = .error e) ↔ f.injects = true ∨ limit < byteLen f.wire := by
  refine ⟨?_, encode_fails_iff⟩
  obtain ⟨hf, ht⟩ : (∀ f ∈ frames, f.injects = false)
      ∧ texts.flatten = frames.flatMap Frame.wire := by
    induction h with
    | nil => simp
    | cons hft _ ih =>
      obtain ⟨limit, hok⟩ := hft
      obtain ⟨hf, rfl⟩ := encode_ok hok
      exact ⟨List.forall_mem_cons.mpr ⟨hf, ih.1⟩, by simp [ih.2]⟩
  have hbom : (frames.flatMap Frame.wire).head? ≠ some (Char.ofNat 0xFEFF) := by
    cases frames with
    | nil => exact (Option.some_ne_none _).symm
    | cons f fs => exact head_wire f _
  rw [ht, parse, if_neg hbom, completeLines_wire hf, events_flatMap hf]

/-- Two events with a comment between them, the breaks of whose data are of all three
kinds. -/
theorem parse_encode_sample :
    parse [ "event: delta\nid: \ndata: a\ndata: b\ndata: c\ndata: \n\n".toList, ":\n\n".toList,
        "data: : x\n\n".toList ].flatten
      = [⟨some "delta".toList, some [], "a\nb\nc\n".toList⟩, ⟨none, none, ": x".toList⟩] := by
  refine (parse_encode
    [.event (some "delta".toList) (some []) "a\r\nb\rc\n".toList, .comment [],
      .event none none ": x".toList] _ ?_).1
  have fits {f : Frame} (hf : f.injects = false) (hl : byteLen f.wire ≤ 64) {t : Text}
      (ht : f.wire = t) : ∃ limit, f.encode limit = .ok t :=
    ⟨64, by rw [encode_eq hf, if_pos hl, ht]⟩
  exact .cons (fits rfl (by decide) rfl) (.cons (fits rfl (by decide) rfl)
    (.cons (fits rfl (by decide) rfl) .nil))

end BitRouter.Ai.Wire
