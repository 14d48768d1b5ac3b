import Mathlib.Data.List.Infix
import Mathlib.Data.List.MinMax
import Mathlib.Tactic.Common

/-!
# Prefixes of strings

A string taken apart at a prefix, and put together again (`strip_eq_some`). Of
the elements of a list whose keys are prefixes of a string, the one with the
longest key is chosen; two prefixes of one string that are equally long are equal,
so the choice is told by the keys alone (`longest_eq_some`). A string is split at the
first place a separator stands (`splitOnce`).
-/

namespace BitRouter.StrPrefix

/-- `str::strip_prefix`. -/
def strip (s p : String) : Option String :=
  if p.toList.isPrefixOf s.toList then some (String.ofList (s.toList.drop p.toList.length))
  else none

/-- `str::strip_suffix`. -/
def stripEnd (s p : String) : Option String :=
  if p.toList.isSuffixOf s.toList then
    some (String.ofList (s.toList.take (s.toList.length - p.toList.length)))
  else none

/-- `str::starts_with`. -/
def startsWith (s p : String) : Bool := (strip s p).isSome

variable {s p q r : String}

theorem strip_append (p r : String) : strip (p ++ r) p = some r := by
  have hprefix : p.toList.isPrefixOf (p ++ r).toList = true := by
    rw [String.toList_append, List.isPrefixOf_iff_prefix]
    exact List.prefix_append _ _
  rw [strip, if_pos hprefix, String.toList_append, List.drop_left, String.ofList_toList]

/-- **A string is its prefix and what stripping leaves.** -/
theorem strip_eq_some : strip s p = some r ↔ s = p ++ r := by
  constructor
  · intro h
    unfold strip at h
    split at h
    · next hprefix =>
      obtain ⟨rest, hrest⟩ := List.isPrefixOf_iff_prefix.mp hprefix
      rw [← hrest, List.drop_left] at h
      rw [← Option.some.inj h, ← String.toList_inj, String.toList_append, String.toList_ofList]
      exact hrest.symm
    · cases h
  · rintro rfl
    exact strip_append p r

theorem startsWith_iff : startsWith s p = true ↔ ∃ r, s = p ++ r := by
  rw [startsWith, Option.isSome_iff_exists]
  exact exists_congr fun r => strip_eq_some

theorem append_right_inj (p : String) : p ++ q = p ++ r ↔ q = r := by
  rw [← String.toList_inj, String.toList_append, String.toList_append, List.append_cancel_left_eq,
    String.toList_inj]

/-- Of two prefixes of one string one is a prefix of the other. -/
theorem startsWith_total (hp : startsWith s p = true) (hq : startsWith s q = true) :
    startsWith p q = true ∨ startsWith q p = true := by
  obtain ⟨x, hx⟩ := startsWith_iff.mp hp
  obtain ⟨y, hy⟩ := startsWith_iff.mp hq
  have hlists : p.toList ++ x.toList = q.toList ++ y.toList := by
    rw [← String.toList_append, ← String.toList_append, ← hx, ← hy]
  rcases List.append_eq_append_iff.mp hlists with ⟨rest, hrest, -⟩ | ⟨rest, hrest, -⟩
  · refine .inr (startsWith_iff.mpr ⟨String.ofList rest, ?_⟩)
    rw [← String.toList_inj, String.toList_append, String.toList_ofList, hrest]
  · refine .inl (startsWith_iff.mpr ⟨String.ofList rest, ?_⟩)
    rw [← String.toList_inj, String.toList_append, String.toList_ofList, hrest]

theorem eq_of_startsWith_of_le (h : startsWith s p = true) (hle : s.utf8ByteSize ≤ p.utf8ByteSize) :
    s = p := by
  obtain ⟨r, rfl⟩ := startsWith_iff.mp h
  rw [String.utf8ByteSize_append] at hle
  have hr : r = "" := String.utf8ByteSize_eq_zero_iff.mp (by omega)
  rw [hr, String.append_empty]

variable {rest : String}

section Longest

variable {α : Type*} (key : α → String)

/-- The element with the longest key among those whose key is a prefix, the last
of equally long ones, and what is left of the string. -/
def longest (s : String) : List α → Option (α × String)
  | [] => none
  | x :: xs =>
    match strip s (key x), longest s xs with
    | none, best => best
    | some rest, none => some (x, rest)
    | some rest, some best =>
      if (key best.1).utf8ByteSize < (key x).utf8ByteSize then some (x, rest) else some best

variable {key} {xs : List α} {x : α}

theorem longest_mem (h : longest key s xs = some (x, rest)) :
    x ∈ xs ∧ s = key x ++ rest := by
  induction xs with
  | nil => cases h
  | cons y ys ih =>
    unfold longest at h
    split at h
    · exact ⟨List.mem_cons_of_mem _ (ih h).1, (ih h).2⟩
    · next hstrip _ =>
      obtain ⟨rfl, rfl⟩ := Prod.mk.inj (Option.some.inj h)
      exact ⟨List.mem_cons_self, strip_eq_some.mp hstrip⟩
    · next hstrip hbest =>
      split at h
      · obtain ⟨rfl, rfl⟩ := Prod.mk.inj (Option.some.inj h)
        exact ⟨List.mem_cons_self, strip_eq_some.mp hstrip⟩
      · have hys := ih (hbest.trans h)
        exact ⟨List.mem_cons_of_mem _ hys.1, hys.2⟩

theorem longest_eq_none (h : longest key s xs = none) :
    ∀ y ∈ xs, ¬ startsWith s (key y) = true := by
  induction xs with
  | nil => exact fun y hy => absurd hy List.not_mem_nil
  | cons x xs ih =>
    unfold longest at h
    split at h
    · next hstrip =>
      refine List.forall_mem_cons.mpr ⟨?_, ih h⟩
      rw [startsWith, hstrip]
      exact Bool.false_ne_true
    · cases h
    · split at h <;> cases h

theorem longest_le (h : longest key s xs = some (x, rest)) :
    ∀ y ∈ xs, startsWith s (key y) = true → (key y).utf8ByteSize ≤ (key x).utf8ByteSize := by
  induction xs generalizing x rest with
  | nil => cases h
  | cons z zs ih =>
    unfold longest at h
    split at h
    · next hstrip =>
      refine List.forall_mem_cons.mpr ⟨fun hz => ?_, ih h⟩
      rw [startsWith, hstrip] at hz
      cases hz
    · next hnone =>
      obtain ⟨rfl, -⟩ := Prod.mk.inj (Option.some.inj h)
      exact List.forall_mem_cons.mpr
        ⟨fun _ => le_rfl, fun y hy hprefix => absurd hprefix (longest_eq_none hnone y hy)⟩
    · next best _ hbest =>
      have htail := ih hbest
      split at h
      · next hless =>
        obtain ⟨rfl, -⟩ := Prod.mk.inj (Option.some.inj h)
        exact List.forall_mem_cons.mpr
          ⟨fun _ => le_rfl, fun y hy hprefix => (htail y hy hprefix).trans hless.le⟩
      · next hless =>
        obtain rfl := Option.some.inj h
        exact List.forall_mem_cons.mpr ⟨fun _ => Nat.le_of_not_lt hless, htail⟩

/-- **The longest prefix is chosen** wherever the keys of the elements differ. -/
theorem longest_eq_some (hinj : ∀ x ∈ xs, ∀ y ∈ xs, key x = key y → x = y) (hx : x ∈ xs)
    (hs : s = key x ++ rest) :
    longest key s xs = some (x, rest) ↔
      ∀ y ∈ xs, startsWith s (key y) = true → startsWith (key y) (key x) = true → y = x := by
  have hstart : startsWith s (key x) = true := startsWith_iff.mpr ⟨rest, hs⟩
  constructor
  · intro h y hy hprefix hlonger
    exact hinj y hy x hx (eq_of_startsWith_of_le hlonger (longest_le h y hy hprefix))
  · intro h
    cases hbest : longest key s xs with
    | none => exact absurd hstart (longest_eq_none hbest x hx)
    | some best =>
      obtain ⟨y, rest'⟩ := best
      obtain ⟨hy, hs'⟩ := longest_mem hbest
      have hstart' : startsWith s (key y) = true := startsWith_iff.mpr ⟨rest', hs'⟩
      -- the key found is at least as long, so it continues that of `x`
      have hlonger : startsWith (key y) (key x) = true := by
        rcases startsWith_total hstart' hstart with hlonger | hshorter
        · exact hlonger
        · have heq := eq_of_startsWith_of_le hshorter (longest_le hbest x hx hstart)
          rwa [heq] at hshorter ⊢
      obtain rfl := h y hy hstart' hlonger
      rw [(append_right_inj (key y)).mp (hs'.symm.trans hs)]

end Longest

/-! ## Splitting at a separator -/

section SplitOnce

variable {α : Type*} [BEq α] [LawfulBEq α] {sep xs before after : List α}

/-- What stands before and after the first place of a separator. -/
def cut (sep : List α) : List α → Option (List α × List α)
  | [] => if sep.isEmpty then some ([], []) else none
  | x :: xs =>
    if sep.isPrefixOf (x :: xs) then some ([], (x :: xs).drop sep.length)
    else (cut sep xs).map fun pieces => (x :: pieces.1, pieces.2)

theorem cut_of_starts (h : sep <+: xs) : cut sep xs = some ([], xs.drop sep.length) := by
  cases xs with
  | nil =>
    obtain rfl := List.prefix_nil.mp h
    rfl
  | cons x xs => rw [cut, if_pos (List.isPrefixOf_iff_prefix.mpr h)]

/-- The pieces make the list again. -/
theorem append_of_cut (h : cut sep xs = some (before, after)) : xs = before ++ (sep ++ after) := by
  induction xs generalizing before with
  | nil =>
    unfold cut at h
    split at h
    · next hempty =>
      obtain ⟨rfl, rfl⟩ := Prod.mk.inj (Option.some.inj h)
      rw [List.isEmpty_iff.mp hempty]
      rfl
    · cases h
  | cons x xs ih =>
    unfold cut at h
    split at h
    · next hstarts =>
      obtain ⟨rfl, rfl⟩ := Prod.mk.inj (Option.some.inj h)
      obtain ⟨rest, hrest⟩ := List.isPrefixOf_iff_prefix.mp hstarts
      rw [← hrest, List.drop_left]
      rfl
    · obtain ⟨⟨before', after'⟩, hcut, hpieces⟩ := Option.map_eq_some_iff.mp h
      obtain ⟨rfl, rfl⟩ := Prod.mk.inj hpieces
      rw [ih hcut]
      rfl

theorem cut_eq_none : cut sep xs = none ↔ ¬ sep <:+: xs := by
  induction xs with
  | nil =>
    rw [List.infix_nil, cut]
    cases sep <;> simp
  | cons x xs ih =>
    rw [List.infix_cons_iff, not_or]
    by_cases hstarts : sep <+: x :: xs
    · rw [cut_of_starts hstarts]
      exact iff_of_false (Option.some_ne_none _) fun h => h.1 hstarts
    · rw [cut, if_neg (fun h => hstarts (List.isPrefixOf_iff_prefix.mp h)), Option.map_eq_none_iff,
        ih]
      exact ⟨fun h => ⟨hstarts, h⟩, And.right⟩

/-- **The cut is at the separator** where its first element does not stand before it. -/
theorem cut_append {c : α} (hbefore : c ∉ before) :
    cut (c :: sep) (before ++ (c :: sep ++ after)) = some (before, after) := by
  induction before with
  | nil =>
    rw [List.nil_append, cut_of_starts (List.prefix_append _ _), List.drop_left]
  | cons x before ih =>
    obtain ⟨hne, hrest⟩ := not_or.mp (fun h => hbefore (List.mem_cons.mpr h))
    have hstarts : ¬ (c :: sep).isPrefixOf (x :: (before ++ (c :: sep ++ after))) = true := by
      rw [List.isPrefixOf_iff_prefix, List.cons_prefix_cons]
      exact fun h => hne h.1
    rw [List.cons_append, cut, if_neg hstarts, ih hrest]
    rfl

end SplitOnce

/-- `str::split_once`. -/
def splitOnce (s sep : String) : Option (String × String) :=
  (cut sep.toList s.toList).map fun pieces => (String.ofList pieces.1, String.ofList pieces.2)

theorem append_of_splitOnce {before after : String} (h : splitOnce s p = some (before, after)) :
    s = before ++ (p ++ after) := by
  obtain ⟨⟨xs, ys⟩, hcut, hpieces⟩ := Option.map_eq_some_iff.mp h
  obtain ⟨rfl, rfl⟩ := Prod.mk.inj hpieces
  rw [← String.toList_inj, append_of_cut hcut]
  simp only [String.toList_append, String.toList_ofList]

theorem splitOnce_eq_none : splitOnce s p = none ↔ ¬ p.toList <:+: s.toList := by
  rw [splitOnce, Option.map_eq_none_iff, cut_eq_none]

theorem splitOnce_append {c : Char} {sep : List Char} {before after : String}
    (hp : p.toList = c :: sep) (hbefore : c ∉ before.toList) :
    splitOnce (before ++ (p ++ after)) p = some (before, after) := by
  rw [splitOnce, String.toList_append, String.toList_append, hp, cut_append hbefore]
  simp only [Option.map_some, String.ofList_toList]

end BitRouter.StrPrefix
