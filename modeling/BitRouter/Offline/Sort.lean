import BitRouter.Data.Result
import Mathlib.Data.List.Perm.Basic

/-!
# External sorting of fixed-width records

`sort.rs`: records are collected up to a capacity, each full chunk is written as a
sorted run, and passes over the runs merge them in pairs until one is left. The
run without a partner moves on to the next pass by its name alone.

Files hold bytes, and a record is read as the next `width` of them. To write a file
under a name that is taken is a failure here, also for `rename`: that a sort
succeeds then says that it replaced no file. Counters are unbounded, so that none
overflows.
-/

namespace BitRouter.Offline

abbrev Bytes := List UInt8

/-- `<=` on byte arrays: the first difference decides. -/
def leBytes : Bytes → Bytes → Bool
  | [], _ => true
  | _ :: _, [] => false
  | a :: as, b :: bs => a.toNat < b.toNat || (a.toNat == b.toNat && leBytes as bs)

inductive Fault
  | taken
  | missing
  | unexpectedEof
  | sizeMismatch
  | truncated
  | grew
  | fuel
  deriving DecidableEq, Repr

/-- `Workspace::run_path`. -/
structure RunPath where
  spool : ℕ
  pass : ℕ
  run : ℕ
  deriving DecidableEq, Repr

abbrev Files := RunPath → Option Bytes

namespace Files

def set (fs : Files) (path : RunPath) (content : Option Bytes) : Files :=
  fun p => if p = path then content else fs p

def read (fs : Files) (path : RunPath) : Except Fault Bytes :=
  (fs path).elim (.error .missing) .ok

/-- Create a file that does not exist, and write it. -/
def createNew (fs : Files) (path : RunPath) (content : Bytes) : Except Fault Files :=
  if (fs path).isSome then .error .taken else .ok (fs.set path (some content))

def remove (fs : Files) (path : RunPath) : Except Fault Files :=
  if (fs path).isSome then .ok (fs.set path none) else .error .missing

def rename (fs : Files) (path target : RunPath) : Except Fault Files := do
  let content ← fs.read path
  (fs.set path none).createNew target content

end Files

variable (width : ℕ)

/-- Read one record: nothing at the end of the input. -/
def record (input : Bytes) : Except Fault (Option Bytes × Bytes) :=
  if input.isEmpty then .ok (none, [])
  else if input.length < width then .error .unexpectedEof
  else .ok (some (input.take width), input.drop width)

/-! ## Merging two runs -/

/-- Write the smaller of the two records that are up, the left one among equals, and
read the next one of its side. -/
def mergeLoop : ℕ → Option Bytes → Option Bytes → Bytes → Bytes → Bytes → Except Fault Bytes
  | 0, _, _, _, _, _ => .error .fuel
  | _ + 1, none, none, _, _, output => .ok output
  | fuel + 1, some a, none, left, right, output => do
    let (a', left') ← record width left
    mergeLoop fuel a' none left' right (output ++ a)
  | fuel + 1, none, some b, left, right, output => do
    let (b', right') ← record width right
    mergeLoop fuel none b' left right' (output ++ b)
  | fuel + 1, some a, some b, left, right, output =>
    if leBytes a b then do
      let (a', left') ← record width left
      mergeLoop fuel a' (some b) left' right (output ++ a)
    else do
      let (b', right') ← record width right
      mergeLoop fuel (some a) b' left right' (output ++ b)

def merge (fs : Files) (left right target : RunPath) : Except Fault Files := do
  let left ← fs.read left
  let right ← fs.read right
  let (a, left') ← record width left
  let (b, right') ← record width right
  let output ← mergeLoop width (left.length + right.length + 1) a b left' right' []
  fs.createNew target output

/-! ## The sorter -/

structure Records where
  spool : ℕ
  runs : ℕ := 0
  len : ℕ := 0
  capacity : ℕ
  values : List Bytes := []

namespace Records

/-- Write what is resident as a sorted run. -/
def flush (fs : Files) (r : Records) : Except Fault (Files × Records) := do
  let fs ← fs.createNew ⟨r.spool, 0, r.runs⟩ (r.values.mergeSort leBytes).flatten
  return (fs, { r with values := [], runs := r.runs + 1 })

def push (fs : Files) (r : Records) (value : Bytes) : Except Fault (Files × Records) := do
  let (fs, r) ← if r.values.length = r.capacity then r.flush fs else pure (fs, r)
  return (fs, { r with values := r.values ++ [value], len := r.len + 1 })

def pushAll : Files → Records → List Bytes → Except Fault (Files × Records)
  | fs, r, [] => .ok (fs, r)
  | fs, r, value :: values => do
    let (fs, r) ← r.push fs value
    pushAll fs r values

end Records

/-- One pass over the runs from `input` on; the answer is how many runs there are now. -/
def mergePass (spool pass runs : ℕ) (fs : Files) (input output : ℕ) : Except Fault (Files × ℕ) :=
  if input < runs then
    if input + 1 < runs then do
      let fs ← merge width fs ⟨spool, pass, input⟩ ⟨spool, pass, input + 1⟩
        ⟨spool, pass + 1, output⟩
      let fs ← fs.remove ⟨spool, pass, input⟩
      let fs ← fs.remove ⟨spool, pass, input + 1⟩
      mergePass spool pass runs fs (input + 2) (output + 1)
    else do
      let fs ← fs.rename ⟨spool, pass, input⟩ ⟨spool, pass + 1, output⟩
      mergePass spool pass runs fs (input + 1) (output + 1)
  else .ok (fs, output)
termination_by runs - input

/-- Passes until one run is left. -/
def mergePasses : ℕ → ℕ → ℕ → ℕ → Files → Except Fault (Files × ℕ)
  | 0, _, _, _, _ => .error .fuel
  | fuel + 1, spool, pass, runs, fs =>
    if 1 < runs then do
      let (fs, runs) ← mergePass width spool pass runs fs 0 0
      mergePasses fuel spool (pass + 1) runs fs
    else .ok (fs, pass)

/-- A sorted file with its cursor: `position` counts bytes, `read` the records `next` has
answered. -/
structure Sorted where
  file : Bytes
  position : ℕ
  len : ℕ
  read : ℕ

/-- Write what is resident; an empty sort has one run too. -/
def Records.flushLast (fs : Files) (r : Records) : Except Fault (Files × Records) :=
  if !r.values.isEmpty || r.runs = 0 then r.flush fs else .ok (fs, r)

def Records.finish (fs : Files) (r : Records) : Except Fault (Files × Sorted) := do
  let (fs, r) ← r.flushLast fs
  let (fs, pass) ← mergePasses width (r.runs + 1) r.spool 0 r.runs fs
  let file ← fs.read ⟨r.spool, pass, 0⟩
  if file.length = r.len * width then return (fs, ⟨file, 0, r.len, 0⟩)
  else .error .sizeMismatch

namespace Sorted

/-- The record at the cursor, which moves past it. -/
def readRecord (s : Sorted) : Except Fault (Option Bytes × Sorted) := do
  let (value, rest) ← record width (s.file.drop s.position)
  return (value, { s with position := s.file.length - rest.length })

/-- Answer the record at an index, and move the cursor back. -/
def readAt (s : Sorted) (index : ℕ) : Except Fault (Option Bytes × Sorted) :=
  if s.len ≤ index then .ok (none, s)
  else do
    let (value, s') ← readRecord width { s with position := index * width }
    if value.isNone then .error .truncated
    else return (value, { s' with position := s.read * width })

def next (s : Sorted) : Except Fault (Option Bytes × Sorted) := do
  let (value, s) ← readRecord width s
  if value.isSome then
    if s.read + 1 ≤ s.len then return (value, { s with read := s.read + 1 })
    else .error .grew
  else if s.read = s.len then return (value, s)
  else .error .truncated

inductive Call
  | next
  | readAt (index : ℕ)

/-- The answers to calls, in their order. -/
def answers : Sorted → List Call → Except Fault (List (Option Bytes))
  | _, [] => .ok []
  | s, .next :: calls => do
    let (value, s) ← s.next width
    return value :: (← answers s calls)
  | s, .readAt index :: calls => do
    let (value, s) ← s.readAt width index
    return value :: (← answers s calls)

end Sorted

/-! ## Records in a file -/

theorem leBytes_total : ∀ a b, (leBytes a b || leBytes b a) = true
  | [], _ => by simp [leBytes]
  | _ :: _, [] => by simp [leBytes]
  | a :: as, b :: bs => by
    have ih := leBytes_total as bs
    rcases Nat.lt_trichotomy a.toNat b.toNat with h | h | h
    · simp [leBytes, h]
    · simpa [leBytes, h] using ih
    · simp [leBytes, h]

theorem leBytes_trans : ∀ a b c, leBytes a b = true → leBytes b c = true → leBytes a c = true
  | [], _, _ => by simp [leBytes]
  | _ :: _, [], _ => by simp [leBytes]
  | _ :: _, _ :: _, [] => by simp [leBytes]
  | a :: as, b :: bs, c :: cs => by
    have ih := leBytes_trans as bs cs
    simp only [leBytes, Bool.or_eq_true, Bool.and_eq_true, decide_eq_true_eq, beq_iff_eq]
    rintro (h | ⟨h, hs⟩) (h' | ⟨h', hs'⟩)
    · exact .inl (Nat.lt_trans h h')
    · exact .inl (h' ▸ h)
    · exact .inl (h ▸ h')
    · exact .inr ⟨h.trans h', ih hs hs'⟩

theorem leBytes_antisymm : ∀ a b, leBytes a b = true → leBytes b a = true → a = b
  | [], [] => fun _ _ => rfl
  | [], _ :: _ => by simp [leBytes]
  | _ :: _, [] => by simp [leBytes]
  | a :: as, b :: bs => by
    have ih := leBytes_antisymm as bs
    simp only [leBytes, Bool.or_eq_true, Bool.and_eq_true, decide_eq_true_eq, beq_iff_eq]
    rintro (h | ⟨h, hs⟩) (h' | ⟨h', hs'⟩)
    · omega
    · omega
    · omega
    · rw [UInt8.toNat_inj.mp h, ih hs hs']

variable {width}

/-- Records of one width. -/
def Wide (width : ℕ) (rs : List Bytes) : Prop := ∀ r ∈ rs, r.length = width

theorem Wide.length_flatten {rs : List Bytes} (h : Wide width rs) :
    rs.flatten.length = rs.length * width := by
  induction rs with
  | nil => simp
  | cons r rs ih =>
    rw [List.flatten_cons, List.length_append, h r List.mem_cons_self,
      ih fun s hs => h s (List.mem_cons_of_mem _ hs), List.length_cons, Nat.succ_mul, Nat.add_comm]

/-- **Records are read one by one.** -/
theorem record_flatten (hw : 0 < width) {rs : List Bytes} (h : Wide width rs) :
    record width rs.flatten = .ok (rs.head?, rs.tail.flatten) := by
  cases rs with
  | nil => rfl
  | cons r rs =>
    have hr := h r List.mem_cons_self
    have hne : (r ++ rs.flatten).isEmpty = false := by
      cases r with
      | nil => simp at hr; omega
      | cons => rfl
    have hlen : ¬ (r ++ rs.flatten).length < width := by
      rw [List.length_append]
      omega
    rw [List.flatten_cons, record, if_neg (by simp [hne]), if_neg hlen, ← hr, List.take_left,
      List.drop_left]
    rfl

theorem mergeLoop_eq (hw : 0 < width) (fuel : ℕ) {xs ys : List Bytes} (hx : Wide width xs)
    (hy : Wide width ys) (hf : xs.length + ys.length < fuel) (output : Bytes) :
    mergeLoop width fuel xs.head? ys.head? xs.tail.flatten ys.tail.flatten output
      = .ok (output ++ (xs.merge ys leBytes).flatten) := by
  induction fuel generalizing xs ys output with
  | zero => omega
  | succ fuel ih =>
    have tail {rs : List Bytes} (h : Wide width rs) : Wide width rs.tail :=
      fun r hr => h r (List.mem_of_mem_tail hr)
    cases xs with
    | nil =>
      cases ys with
      | nil => simp [mergeLoop]
      | cons y ys =>
        have hread : record width ys.flatten = _ := record_flatten hw (tail hy)
        have hrest := ih hx (tail hy) (by simp at hf ⊢; omega) (output ++ y)
        exact bind_eq_ok.mpr ⟨_, hread, by simpa using hrest⟩
    | cons x xs =>
      have hleft : record width xs.flatten = _ := record_flatten hw (tail hx)
      cases ys with
      | nil =>
        have hrest := ih (tail hx) hy (by simp at hf ⊢; omega) (output ++ x)
        exact bind_eq_ok.mpr ⟨_, hleft, by simpa using hrest⟩
      | cons y ys =>
        have hright : record width ys.flatten = _ := record_flatten hw (tail hy)
        simp only [List.head?_cons, List.tail_cons, mergeLoop]
        by_cases hle : leBytes x y = true
        · have hrest := ih (tail hx) hy (by simp at hf ⊢; omega) (output ++ x)
          rw [if_pos hle, List.cons_merge_cons_pos _ _ _ hle]
          exact bind_eq_ok.mpr ⟨_, hleft, by simpa using hrest⟩
        · have hrest := ih hx (tail hy) (by simp at hf ⊢; omega) (output ++ y)
          rw [if_neg hle, List.cons_merge_cons_neg _ _ _ hle]
          exact bind_eq_ok.mpr ⟨_, hright, by simpa using hrest⟩

/-- **Two runs are merged.** -/
theorem merge_eq (hw : 0 < width) {fs : Files} {left right target : RunPath}
    {xs ys : List Bytes} (hx : Wide width xs) (hy : Wide width ys)
    (hl : fs left = some xs.flatten) (hr : fs right = some ys.flatten) :
    merge width fs left right target = fs.createNew target (xs.merge ys leBytes).flatten := by
  have hfuel : xs.length + ys.length < xs.flatten.length + ys.flatten.length + 1 := by
    rw [hx.length_flatten, hy.length_flatten]
    have := Nat.le_mul_of_pos_right xs.length hw
    have := Nat.le_mul_of_pos_right ys.length hw
    omega
  have hleft : fs.read left = .ok xs.flatten := by simp [Files.read, hl]
  have hright : fs.read right = .ok ys.flatten := by simp [Files.read, hr]
  rw [merge, hleft, hright]
  show record width xs.flatten >>= _ = _
  rw [record_flatten hw hx]
  show record width ys.flatten >>= _ = _
  rw [record_flatten hw hy]
  show mergeLoop width _ _ _ _ _ _ >>= _ = _
  rw [mergeLoop_eq hw _ hx hy hfuel []]
  rfl

/-! ## One pass -/

/-- The files during a pass, by number: its own runs and those of the next pass. Other
spools are as they were. -/
def layout (fs₀ : Files) (spool pass : ℕ) (current next : ℕ → Option Bytes) : Files := fun p =>
  if p.spool = spool then
    if p.pass = pass then current p.run
    else if p.pass = pass + 1 then next p.run
    else none
  else fs₀ p

/-- Runs numbered from `input` on. -/
def pending (input : ℕ) (runs : List (List Bytes)) (run : ℕ) : Option Bytes :=
  if run < input then none else (runs[run - input]?).map List.flatten

theorem pending_cons (input : ℕ) (m : List Bytes) (runs : List (List Bytes)) :
    Function.update (pending input (m :: runs)) input none = pending (input + 1) runs := by
  funext run
  by_cases h : run = input
  · simp [h, pending]
  · rw [Function.update_of_ne h, pending, pending]
    by_cases hlt : run < input
    · rw [if_pos hlt, if_pos (by omega)]
    · rw [if_neg hlt, if_neg (by omega), show run - input = (run - (input + 1)) + 1 by omega,
        List.getElem?_cons_succ]

theorem pending_concat (outs : List (List Bytes)) (m : List Bytes) :
    Function.update (pending 0 outs) outs.length (some m.flatten) = pending 0 (outs ++ [m]) := by
  funext run
  by_cases h : run = outs.length
  · simp [h, pending]
  · rw [Function.update_of_ne h]
    by_cases hlt : run < outs.length
    · simp [pending, List.getElem?_append_left hlt]
    · have hout : (outs ++ [m]).length ≤ run := by simp; omega
      simp [pending, List.getElem?_eq_none (Nat.not_lt.mp hlt), List.getElem?_eq_none hout]

@[simp] theorem pending_nil (input run : ℕ) : pending input [] run = none := by
  simp [pending]

@[simp] theorem pending_head (input : ℕ) (m : List Bytes) (runs : List (List Bytes)) :
    pending input (m :: runs) input = some m.flatten := by
  simp [pending]

theorem pending_length (outs : List (List Bytes)) : pending 0 outs outs.length = none := by
  simp [pending]

section Layout

variable (fs₀ : Files) (spool pass : ℕ) (current next : ℕ → Option Bytes)

theorem layout_set_current (run : ℕ) (content : Option Bytes) :
    (layout fs₀ spool pass current next).set ⟨spool, pass, run⟩ content
      = layout fs₀ spool pass (Function.update current run content) next := by
  funext ⟨s, q, r⟩
  simp only [Files.set, layout, RunPath.mk.injEq, Function.update_apply]
  by_cases hs : s = spool <;> by_cases hq : q = pass <;> simp [hs, hq]

theorem layout_set_next (run : ℕ) (content : Option Bytes) :
    (layout fs₀ spool pass current next).set ⟨spool, pass + 1, run⟩ content
      = layout fs₀ spool pass current (Function.update next run content) := by
  funext ⟨s, q, r⟩
  simp only [Files.set, layout, RunPath.mk.injEq, Function.update_apply]
  by_cases hs : s = spool <;> by_cases hq : q = pass + 1 <;> simp [hs, hq]

@[simp] theorem layout_current (run : ℕ) :
    layout fs₀ spool pass current next ⟨spool, pass, run⟩ = current run := by
  simp [layout]

@[simp] theorem layout_next (run : ℕ) :
    layout fs₀ spool pass current next ⟨spool, pass + 1, run⟩ = next run := by
  simp [layout]

theorem layout_shift (input : ℕ) :
    layout fs₀ spool pass (pending input []) next
      = layout fs₀ spool (pass + 1) next (pending 0 []) := by
  funext ⟨s, q, r⟩
  simp only [layout, pending_nil]
  by_cases hs : s = spool
  · by_cases hq : q = pass
    · simp [hs, hq]
    · by_cases hn : q = pass + 1 <;> simp [hs, hq, hn]
  · simp [hs]

end Layout

/-- The runs after a pass. -/
def pairUp : List (List Bytes) → List (List Bytes)
  | a :: b :: rest => a.merge b leBytes :: pairUp rest
  | rest => rest

variable {fs₀ : Files} {spool pass : ℕ}

theorem mergePass_pair (hw : 0 < width) {input runs : ℕ} (hin : input + 1 < runs)
    {a b : List Bytes} (ha : Wide width a) (hb : Wide width b) (rest outs : List (List Bytes)) :
    mergePass width spool pass runs
        (layout fs₀ spool pass (pending input (a :: b :: rest)) (pending 0 outs)) input outs.length
      = mergePass width spool pass runs
        (layout fs₀ spool pass (pending (input + 2) rest)
          (pending 0 (outs ++ [a.merge b leBytes]))) (input + 2) (outs.length + 1) := by
  have hb' : pending input (a :: b :: rest) (input + 1) = some b.flatten := by simp [pending]
  rw [mergePass, if_pos (by omega), if_pos hin,
    merge_eq hw ha hb ((layout_current ..).trans (pending_head ..)) ((layout_current ..).trans hb'),
    Files.createNew, layout_next, pending_length, if_neg (by simp), layout_set_next, pending_concat]
  show Files.remove _ _ >>= _ = _
  rw [Files.remove, layout_current, pending_head, if_pos Option.isSome_some, layout_set_current,
    pending_cons]
  show Files.remove _ _ >>= _ = _
  rw [Files.remove, layout_current, pending_head, if_pos Option.isSome_some, layout_set_current,
    pending_cons]
  rfl

theorem mergePass_last {input runs : ℕ} (hin : input + 1 = runs) (m : List Bytes)
    (outs : List (List Bytes)) :
    mergePass width spool pass runs
        (layout fs₀ spool pass (pending input [m]) (pending 0 outs)) input outs.length
      = .ok (layout fs₀ spool pass (pending runs []) (pending 0 (outs ++ [m])),
          outs.length + 1) := by
  rw [mergePass, if_pos (by omega), if_neg (by omega), Files.rename, Files.read, layout_current,
    pending_head]
  show Files.createNew _ _ _ >>= _ = _
  rw [layout_set_current, pending_cons, Files.createNew, layout_next, pending_length,
    if_neg (by simp), layout_set_next, pending_concat, hin]
  show mergePass _ _ _ _ _ _ _ = _
  rw [mergePass, if_neg (by omega)]

/-- **One pass** merges the runs in pairs, and loses none. -/
theorem mergePass_eq (hw : 0 < width) {runs : ℕ} {rest : List (List Bytes)}
    (hrest : ∀ r ∈ rest, Wide width r) {input : ℕ} (hin : input + rest.length = runs)
    (outs : List (List Bytes)) :
    mergePass width spool pass runs
        (layout fs₀ spool pass (pending input rest) (pending 0 outs)) input outs.length
      = .ok (layout fs₀ spool pass (pending runs []) (pending 0 (outs ++ pairUp rest)),
          (outs ++ pairUp rest).length) := by
  induction rest using pairUp.induct generalizing input outs with
  | case1 a b rest ih =>
    obtain ⟨ha, hb, hrest⟩ := by simpa using hrest
    have hnext : input + 2 + rest.length = runs := by
      simp only [List.length_cons] at hin
      omega
    have hstep := ih hrest hnext (outs ++ [a.merge b leBytes])
    rw [mergePass_pair hw (by simp at hin; omega) ha hb]
    simpa [pairUp] using hstep
  | case2 rest hshort =>
    match rest, hshort with
    | [], _ =>
      obtain rfl : input = runs := by simpa using hin
      rw [mergePass, if_neg (by omega)]
      simp [pairUp]
    | [m], _ =>
      rw [mergePass_last hin]
      simp [pairUp]
    | a :: b :: rest, h => exact absurd rfl (h a b rest)

/-- Sorted runs of records of one width. -/
def Runs (width : ℕ) (runs : List (List Bytes)) : Prop :=
  ∀ r ∈ runs, Wide width r ∧ r.Pairwise (leBytes · ·)

theorem pairUp_perm (runs : List (List Bytes)) : (pairUp runs).flatten.Perm runs.flatten := by
  induction runs using pairUp.induct with
  | case1 a b rest ih =>
    have hab : (a.merge b leBytes).Perm (a ++ b) := List.merge_perm_append _
    rw [pairUp, List.flatten_cons, List.flatten_cons, List.flatten_cons, ← List.append_assoc]
    exact hab.append ih
  | case2 rest h =>
    rw [pairUp.eq_2 rest h]

theorem pairUp_runs {runs : List (List Bytes)} (h : Runs width runs) :
    Runs width (pairUp runs) := by
  induction runs using pairUp.induct with
  | case1 a b rest ih =>
    obtain ⟨ha, hab⟩ := List.forall_mem_cons.mp h
    obtain ⟨hb, hrest⟩ := List.forall_mem_cons.mp hab
    have hperm : (a.merge b leBytes).Perm (a ++ b) := List.merge_perm_append _
    refine List.forall_mem_cons.mpr ⟨⟨fun r hr => ?_, ?_⟩, ih hrest⟩
    · rcases List.mem_append.mp (hperm.subset hr) with hr | hr
      · exact ha.1 r hr
      · exact hb.1 r hr
    · exact List.pairwise_merge leBytes_trans leBytes_total a b ha.2 hb.2
  | case2 rest hshort =>
    rw [pairUp.eq_2 rest hshort]
    exact h

theorem length_pairUp (runs : List (List Bytes)) :
    (pairUp runs).length = (runs.length + 1) / 2 := by
  induction runs using pairUp.induct with
  | case1 a b rest ih =>
    simp only [pairUp, List.length_cons, ih]
    omega
  | case2 rest h =>
    rw [pairUp.eq_2 rest h]
    match rest, h with
    | [], _ => rfl
    | [m], _ => simp
    | a :: b :: rest, h => exact absurd rfl (h a b rest)

/-- **The passes end in one run**, which holds what the runs held. -/
theorem mergePasses_eq (fs₀ : Files) (spool : ℕ) (hw : 0 < width) (fuel : ℕ)
    {runs : List (List Bytes)}
    (hruns : Runs width runs) (hne : runs ≠ []) (hf : runs.length < fuel) (pass : ℕ) :
    ∃ pass' final, mergePasses width fuel spool pass runs.length
          (layout fs₀ spool pass (pending 0 runs) (pending 0 []))
        = .ok (layout fs₀ spool pass' (pending 0 [final]) (pending 0 []), pass')
      ∧ final.Perm runs.flatten ∧ Runs width [final] := by
  induction fuel generalizing runs pass with
  | zero => omega
  | succ fuel ih =>
    by_cases hone : 1 < runs.length
    · have hlen := length_pairUp runs
      obtain ⟨pass', final, heq, hperm, hfinal⟩ := ih (pairUp_runs hruns)
        (fun hnil => by simp [hnil] at hlen; omega) (by omega) (pass + 1)
      refine ⟨pass', final, ?_, hperm.trans (pairUp_perm runs), hfinal⟩
      have hpass : mergePass width spool pass runs.length
          (layout fs₀ spool pass (pending 0 runs) (pending 0 [])) 0 0 = _ :=
        mergePass_eq hw (fun r hr => (hruns r hr).1) (Nat.zero_add _) []
      rw [List.nil_append] at hpass
      rw [mergePasses, if_pos hone]
      refine bind_eq_ok.mpr ⟨_, hpass, ?_⟩
      rw [← heq, layout_shift]
    · match runs, hne with
      | [final], _ =>
        refine ⟨pass, final, ?_, by simp, hruns⟩
        rw [mergePasses, if_neg hone]
      | a :: b :: rest, _ => simp at hone

/-! ## The sorter -/

/-- What the sorter holds: runs on disk and values in memory, together what was pushed. -/
structure Filled (width : ℕ) (fs₀ : Files) (pushed : List Bytes) (fs : Files) (r : Records)
    (runs : List (List Bytes)) : Prop where
  files : fs = layout fs₀ r.spool 0 (pending 0 runs) (pending 0 [])
  count : r.runs = runs.length
  sorted : Runs width runs
  values : Wide width r.values
  perm : (runs.flatten ++ r.values).Perm pushed
  len : r.len = pushed.length

variable {pushed : List Bytes} {fs : Files} {r : Records} {runs : List (List Bytes)}

section

variable (h : Filled width fs₀ pushed fs r runs)

include h

theorem Filled.flush :
    ∃ fs' r', r.flush fs = .ok (fs', r')
      ∧ Filled width fs₀ pushed fs' r' (runs ++ [r.values.mergeSort leBytes])
      ∧ r'.values = [] ∧ r'.spool = r.spool ∧ r'.capacity = r.capacity := by
  obtain ⟨rfl, hcount, hsorted, hvalues, hperm, hlen⟩ := h
  have hsort := List.mergeSort_perm r.values leBytes
  refine ⟨_, { r with values := [], runs := r.runs + 1 }, ?_, ⟨rfl, by simp [hcount], ?_,
    by simp [Wide], ?_, hlen⟩, rfl, rfl, rfl⟩
  · rw [Records.flush, hcount, Files.createNew, layout_current, pending_length, if_neg (by simp),
      layout_set_current, pending_concat]
    rfl
  · intro run hrun
    rcases List.mem_append.mp hrun with hrun | hrun
    · exact hsorted run hrun
    · obtain rfl := List.mem_singleton.mp hrun
      exact ⟨fun v hv => hvalues v (hsort.subset hv),
        List.pairwise_mergeSort leBytes_trans leBytes_total r.values⟩
  · rw [List.flatten_append, List.append_nil]
    refine List.Perm.trans ?_ hperm
    rw [List.flatten_singleton]
    exact hsort.append_left _

theorem Filled.push {value : Bytes} (hv : value.length = width) :
    ∃ fs' r' runs', r.push fs value = .ok (fs', r')
      ∧ Filled width fs₀ (pushed ++ [value]) fs' r' runs' ∧ r'.spool = r.spool := by
  have room {fs r runs} (h : Filled width fs₀ pushed fs r runs) :
      Filled width fs₀ (pushed ++ [value]) fs
        { r with values := r.values ++ [value], len := r.len + 1 } runs := by
    refine ⟨h.files, h.count, h.sorted, fun v hm => ?_, ?_, by simp [h.len]⟩
    · rcases List.mem_append.mp hm with hm | hm
      · exact h.values v hm
      · rw [List.mem_singleton.mp hm, hv]
    · rw [← List.append_assoc]
      exact h.perm.append_right _
  by_cases hfull : r.values.length = r.capacity
  · obtain ⟨fs', r', hflush, hfilled, -, hspool, -⟩ := h.flush
    refine ⟨fs', _, _, ?_, room hfilled, hspool⟩
    rw [Records.push, if_pos hfull, hflush]
    rfl
  · refine ⟨fs, _, runs, ?_, room h, rfl⟩
    rw [Records.push, if_neg hfull]
    rfl

theorem Filled.pushAll {values : List Bytes} (hv : Wide width values) :
    ∃ fs' r' runs', r.pushAll fs values = .ok (fs', r')
      ∧ Filled width fs₀ (pushed ++ values) fs' r' runs' ∧ r'.spool = r.spool := by
  induction values generalizing pushed fs r runs with
  | nil => exact ⟨fs, r, runs, rfl, by simpa using h, rfl⟩
  | cons value values ih =>
    obtain ⟨fs', r', runs', hpush, hfilled, hspool⟩ := h.push (hv value List.mem_cons_self)
    obtain ⟨fs'', r'', runs'', hall, hfilled', hspool'⟩ :=
      ih hfilled fun v hm => hv v (List.mem_cons_of_mem _ hm)
    refine ⟨fs'', r'', runs'', ?_, by simpa using hfilled', hspool'.trans hspool⟩
    exact bind_eq_ok.mpr ⟨_, hpush, hall⟩

end

/-- **The end of a sort**: one file is left, which holds what was pushed. -/
theorem Filled.finish (hw : 0 < width) (h : Filled width fs₀ pushed fs r runs) :
    ∃ pass sorted, r.finish width fs
        = .ok (layout fs₀ r.spool pass (pending 0 [sorted]) (pending 0 []),
            ⟨sorted.flatten, 0, sorted.length, 0⟩)
      ∧ sorted.Perm pushed ∧ sorted.Pairwise (leBytes · ·) ∧ Wide width sorted := by
  obtain ⟨fs', r', runs', hlast, hfilled, hempty, hne, hspool⟩ : ∃ fs' r' runs',
      r.flushLast fs = .ok (fs', r') ∧ Filled width fs₀ pushed fs' r' runs'
        ∧ r'.values = [] ∧ runs' ≠ []
        ∧ r'.spool = r.spool := by
    by_cases hlast : (!r.values.isEmpty || r.runs = 0) = true
    · obtain ⟨fs', r', hflush, hfilled, hempty, hspool, -⟩ := h.flush
      exact ⟨fs', r', _, (if_pos hlast).trans hflush, hfilled, hempty, by simp, hspool⟩
    · have hnot : r.values = [] ∧ r.runs ≠ 0 := by simpa using hlast
      refine ⟨fs, r, runs, if_neg hlast, h, hnot.1, ?_, rfl⟩
      rintro rfl
      exact hnot.2 h.count
  obtain ⟨pass, sorted, hpasses, hperm, hsorted⟩ :=
    mergePasses_eq fs₀ r'.spool hw (runs'.length + 1) hfilled.sorted hne (Nat.lt_succ_self _) 0
  have hpushed : sorted.Perm pushed := by
    have hall := hfilled.perm
    rw [hempty, List.append_nil] at hall
    exact hperm.trans hall
  rw [← hfilled.count, ← hfilled.files] at hpasses
  obtain ⟨hwide, hpair⟩ := hsorted sorted List.mem_cons_self
  refine ⟨pass, sorted, ?_, hpushed, hpair, hwide⟩
  have hlen : r'.len = sorted.length := hfilled.len.trans hpushed.length_eq.symm
  refine bind_eq_ok.mpr ⟨_, hlast, bind_eq_ok.mpr ⟨_, hpasses, ?_⟩⟩
  have hread : Files.read (layout fs₀ r'.spool pass (pending 0 [sorted]) (pending 0 []))
      ⟨r'.spool, pass, 0⟩ = .ok sorted.flatten := by
    rw [Files.read, layout_current, pending_head]
    rfl
  refine bind_eq_ok.mpr ⟨_, hread, ?_⟩
  rw [hwide.length_flatten, hlen, if_pos rfl, hspool]
  rfl

/-! ## Reading -/

namespace Sorted

/-- The sorted file with its cursor before record `n`, or at its end. -/
def cursor (width : ℕ) (sorted : List Bytes) (n : ℕ) : Sorted :=
  ⟨sorted.flatten, min n sorted.length * width, sorted.length, min n sorted.length⟩

variable {sorted : List Bytes}

theorem drop_flatten (h : Wide width sorted) {n : ℕ} (hn : n ≤ sorted.length) :
    sorted.flatten.drop (n * width) = (sorted.drop n).flatten := by
  have htake : Wide width (sorted.take n) := fun r hr => h r (List.mem_of_mem_take hr)
  have hlen : (sorted.take n).flatten.length = n * width := by
    rw [htake.length_flatten, List.length_take, Nat.min_eq_left hn]
  conv_lhs => rw [← List.take_append_drop n sorted, List.flatten_append, ← hlen]
  exact List.drop_left

theorem readRecord_eq (hw : 0 < width) (h : Wide width sorted) {n : ℕ} (hn : n ≤ sorted.length)
    (len read : ℕ) :
    readRecord width ⟨sorted.flatten, n * width, len, read⟩
      = .ok (sorted[n]?, ⟨sorted.flatten, min (n + 1) sorted.length * width, len, read⟩) := by
  have hdrop : Wide width (sorted.drop n) := fun r hr => h r (List.mem_of_mem_drop hr)
  have htail : Wide width (sorted.drop (n + 1)) := fun r hr => h r (List.mem_of_mem_drop hr)
  have hend : sorted.flatten.length - (sorted.drop (n + 1)).flatten.length
      = min (n + 1) sorted.length * width := by
    rw [h.length_flatten, htail.length_flatten, List.length_drop, ← Nat.sub_mul]
    congr 1
    omega
  rw [readRecord, drop_flatten h hn, record_flatten hw hdrop, List.head?_drop, List.tail_drop]
  show Except.ok (_, Sorted.mk _ _ _ _) = _
  rw [hend]

theorem next_eq (hw : 0 < width) (h : Wide width sorted) (n : ℕ) :
    (cursor width sorted n).next width = .ok (sorted[n]?, cursor width sorted (n + 1)) := by
  have hread : readRecord width (cursor width sorted n) = _ :=
    readRecord_eq hw h (Nat.min_le_right n sorted.length) _ _
  rw [next, hread]
  show (if sorted[min n sorted.length]?.isSome then
      if min n sorted.length + 1 ≤ sorted.length then Except.ok (_, Sorted.mk _ _ _ _) else _
    else if min n sorted.length = sorted.length then Except.ok (_, Sorted.mk _ _ _ _) else _) = _
  by_cases hn : n < sorted.length
  · have hmin : min n sorted.length = n := Nat.min_eq_left (Nat.le_of_lt hn)
    have hmin' : min (n + 1) sorted.length = n + 1 := Nat.min_eq_left (Nat.succ_le_of_lt hn)
    rw [hmin, if_pos (by simp [hn]), if_pos (Nat.succ_le_of_lt hn), cursor, hmin']
  · have hle : sorted.length ≤ n := Nat.not_lt.mp hn
    have hmin : min n sorted.length = sorted.length := Nat.min_eq_right hle
    have hmin' : min (n + 1) sorted.length = sorted.length :=
      Nat.min_eq_right (Nat.le_trans hle n.le_succ)
    rw [hmin, if_neg (by simp), if_pos rfl, cursor, hmin', List.getElem?_eq_none hle,
      List.getElem?_eq_none (Nat.le_refl _), Nat.min_eq_right (Nat.le_succ _)]

theorem readAt_eq (hw : 0 < width) (h : Wide width sorted) (n index : ℕ) :
    (cursor width sorted n).readAt width index = .ok (sorted[index]?, cursor width sorted n) := by
  by_cases hi : sorted.length ≤ index
  · rw [readAt, if_pos (show (cursor width sorted n).len ≤ index from hi), List.getElem?_eq_none hi]
  · have hread : readRecord width { cursor width sorted n with position := index * width } = _ :=
      readRecord_eq hw h (Nat.le_of_lt (Nat.not_le.mp hi)) _ _
    rw [readAt, if_neg (show ¬ (cursor width sorted n).len ≤ index from hi), hread]
    show (if sorted[index]?.isNone then _ else _) = _
    rw [if_neg (by simp; omega)]
    rfl

/-- What calls must answer, after `n` calls of `next`. -/
def expected (sorted : List Bytes) : ℕ → List Call → List (Option Bytes)
  | _, [] => []
  | n, .next :: calls => sorted[n]? :: expected sorted (n + 1) calls
  | n, .readAt index :: calls => sorted[index]? :: expected sorted n calls

theorem answers_eq (hw : 0 < width) (h : Wide width sorted) (n : ℕ) (calls : List Call) :
    (cursor width sorted n).answers width calls = .ok (expected sorted n calls) := by
  induction calls generalizing n with
  | nil => rfl
  | cons call calls ih =>
    cases call with
    | next => exact bind_eq_ok.mpr ⟨_, next_eq hw h n, bind_eq_ok.mpr ⟨_, ih (n + 1), rfl⟩⟩
    | readAt index =>
      exact bind_eq_ok.mpr ⟨_, readAt_eq hw h n index, bind_eq_ok.mpr ⟨_, ih n, rfl⟩⟩

end Sorted

/-! ## Main results -/

theorem layout_start (hfree : ∀ pass run, fs₀ ⟨spool, pass, run⟩ = none) :
    fs₀ = layout fs₀ spool 0 (pending 0 []) (pending 0 []) := by
  funext ⟨s, q, r⟩
  by_cases hs : s = spool
  · simp [layout, hs, hfree]
  · simp [layout, hs]

/-- **Sorting is exact.** Whatever the capacity, the records that were pushed are all
there, in ascending order, however reads at an index and reads in sequence alternate.
The one file that is left holds them; every run but that one is gone, and no other file
has changed. -/
theorem sort_exact {width : ℕ} (hw : 0 < width) (capacity spool : ℕ) {fs₀ : Files}
    (hfree : ∀ pass run, fs₀ ⟨spool, pass, run⟩ = none) {values : List Bytes}
    (hv : Wide width values) :
    ∃ fs r fs' s pass sorted,
      Records.pushAll fs₀ { spool := spool, capacity := capacity } values = .ok (fs, r)
        ∧ r.finish width fs = .ok (fs', s)
        ∧ List.Perm sorted values ∧ sorted.Pairwise (leBytes · ·) ∧ s.len = values.length
        ∧ (∀ calls, s.answers width calls = .ok (Sorted.expected sorted 0 calls))
        ∧ ∀ p, fs' p = if p = ⟨spool, pass, 0⟩ then some sorted.flatten else fs₀ p := by
  have hstart : Filled width fs₀ [] fs₀ { spool := spool, capacity := capacity } [] :=
    ⟨layout_start hfree, rfl, by simp [Runs], by simp [Wide], by simp, rfl⟩
  obtain ⟨fs, r, runs, hpush, hfilled, hspool⟩ := hstart.pushAll hv
  obtain ⟨pass, sorted, hfinish, hperm, hsorted, hwide⟩ := hfilled.finish hw
  rw [hspool] at hfinish
  refine ⟨fs, r, _, _, pass, sorted, hpush, hfinish, hperm, hsorted, hperm.length_eq,
    fun calls => ?_, fun p => ?_⟩
  · have h := Sorted.answers_eq hw hwide 0 calls
    rwa [Sorted.cursor, Nat.zero_min, Nat.zero_mul] at h
  · obtain ⟨s, q, k⟩ := p
    simp only [layout, RunPath.mk.injEq]
    by_cases hs : s = spool
    · subst hs
      by_cases hq : q = pass
      · cases k <;> simp [hq, pending, hfree]
      · by_cases hn : q = pass + 1 <;> simp [hq, hn, hfree]
    · simp [hs]

namespace Sample

/-- A file of another sort, which is under way in the same directory. -/
def other : Files := fun p => if p = ⟨3, 0, 0⟩ then some [9, 9] else none

def records : List Bytes := [[2, 0], [1, 9], [2, 0], [0, 7], [1, 9], [3, 1], [0, 0]]

def ordered : List Bytes := [[0, 0], [0, 7], [1, 9], [1, 9], [2, 0], [2, 0], [3, 1]]

def calls : List Sorted.Call := [.next, .readAt 6, .next, .readAt 0, .readAt 7, .next]

end Sample

/-- Seven records in four runs, some of them equal, beside another sort. -/
theorem sort_exact_seven :
    ∃ fs r fs' s pass, Records.pushAll Sample.other { spool := 7, capacity := 2 } Sample.records
        = .ok (fs, r)
      ∧ r.finish 2 fs = .ok (fs', s) ∧ s.len = 7
      ∧ s.answers 2 Sample.calls
        = .ok [some [0, 0], some [3, 1], some [0, 7], some [0, 0], none, some [1, 9]]
      ∧ ∀ p, fs' p = if p = ⟨7, pass, 0⟩ then some Sample.ordered.flatten else Sample.other p := by
  have hfree : ∀ pass run, Sample.other ⟨7, pass, run⟩ = none :=
    fun _ _ => if_neg (by simp)
  have hv : Wide 2 Sample.records := by simp [Wide, Sample.records]
  obtain ⟨fs, r, fs', s, pass, sorted, hpush, hfinish, hperm, hsorted, hlen, hanswers, hfiles⟩ :=
    @sort_exact 2 (by decide) 2 7 Sample.other hfree _ hv
  -- only one order of the records is ascending
  obtain rfl : sorted = Sample.ordered :=
    List.Perm.eq_of_pairwise (fun a b _ _ => leBytes_antisymm a b) hsorted (by decide)
      (hperm.trans (by decide))
  exact ⟨fs, r, fs', s, pass, hpush, hfinish, hlen, hanswers Sample.calls, hfiles⟩

end BitRouter.Offline
