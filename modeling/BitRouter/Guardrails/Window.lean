import Mathlib.Data.List.Infix
import Mathlib.Data.Nat.Find

/-!
# Guardrails over a streamed response

A rule set is matched against a response that arrives in deltas. Each delta is
emitted in its own turn; what is kept is the end of the text so far, so that a
`Block` pattern that straddles deltas is still found. A literal of at most 129
characters that ends in a delta starts at most 128 characters before it, and so
within what is kept: `infix_append_iff`.

A `Block` verdict aborts the stream. The matcher does not take the blocked
delta into its window, so fed on it would miss what straddles the end of that
delta (`fed_on_misses`).
-/

namespace BitRouter.Guardrails

abbrev Text := List Char

/-- What the regex engine does with a pattern. -/
structure Regex (Pattern : Type) where
  isMatch : Pattern → Text → Bool
  replaceAll : Pattern → Text → Text → Text

/-- What to do when a rule matches. -/
inductive Action
  | block
  | redact
  deriving DecidableEq, Repr

structure GuardrailRule (Pattern : Type) where
  name : String
  pattern : Pattern
  action : Action

abbrev RuleSet (Pattern : Type) := List (GuardrailRule Pattern)

/-- The placeholder substituted for redacted spans. -/
def redaction : Text := "[REDACTED]".toList

section Rules

variable {Pattern : Type} (regex : Regex Pattern)

/-- The name of the first `Block` rule that matches a text. -/
def firstBlock (rules : RuleSet Pattern) (text : Text) : Option String :=
  (rules.find? (fun r => r.action = .block && regex.isMatch r.pattern text)).map (·.name)

/-- Apply every `Redact` rule, and say whether anything was redacted. -/
def redact (rules : RuleSet Pattern) (text : Text) : Text × Bool :=
  rules.foldl (fun (out, changed) rule =>
    if rule.action = .redact then
      let replaced := regex.replaceAll rule.pattern out redaction
      if replaced ≠ out then (replaced, true) else (out, changed)
    else (out, changed)) (text, false)

inductive WindowResult
  | emit (delta : Text)
  | blocked (name : String)
  deriving DecidableEq, Repr

/-- The length of the window kept. -/
def carryChars : ℕ := 128

structure SlidingWindowMatcher (Pattern : Type) where
  rules : RuleSet Pattern
  carry : Text

namespace SlidingWindowMatcher

def new (rules : RuleSet Pattern) : SlidingWindowMatcher Pattern := { rules, carry := [] }

/-- A matcher with the window of an earlier one. -/
def withCarry (rules : RuleSet Pattern) (carry : Text) : SlidingWindowMatcher Pattern :=
  { rules, carry }

/-- **Feed one delta.** -/
def feed (m : SlidingWindowMatcher Pattern) (delta : Text) :
    WindowResult × SlidingWindowMatcher Pattern :=
  let combined := m.carry ++ delta
  match firstBlock regex m.rules combined with
  | some name => (.blocked name, m)
  | none =>
    let keep := min combined.length carryChars
    (.emit (redact regex m.rules delta).1,
      { m with carry := combined.drop (combined.length - keep) })

end SlidingWindowMatcher

/-- A delta, or the window persisted and a matcher built from it. -/
inductive Op
  | feed (delta : Text)
  | resume

/-- The deltas of a stream. -/
def deltas : List Op → List Text
  | [] => []
  | .feed delta :: ops => delta :: deltas ops
  | .resume :: ops => deltas ops

/-- **The verdicts on a stream**, which a `Block` verdict aborts. -/
def run (m : SlidingWindowMatcher Pattern) : List Op → List WindowResult
  | [] => []
  | .resume :: ops => run (.withCarry m.rules m.carry) ops
  | .feed delta :: ops =>
    match m.feed regex delta with
    | (.blocked name, _) => [.blocked name]
    | (.emit out, m') => .emit out :: run m' ops

end Rules

/-! ## What a window shows -/

section Window

variable {text delta literal : Text}

/-- **An occurrence that ends in the delta starts in the window.** -/
theorem infix_append_iff (hlength : literal.length ≤ carryChars + 1) (hnot : ¬literal <:+: text) :
    literal <:+: text ++ delta ↔
      literal <:+: text.drop (text.length - carryChars) ++ delta := by
  have hle : text.length - carryChars ≤ text.length := Nat.sub_le _ _
  rw [← List.drop_append_of_le_length hle]
  constructor
  · rintro ⟨before, after, heq⟩
    have hends : text.length < before.length + literal.length := by
      by_contra hinside
      -- then the occurrence ends within the text
      have hprefix : before ++ literal <+: text :=
        List.prefix_of_prefix_length_le ⟨after, heq⟩ (List.prefix_append text delta)
          (by rw [List.length_append]; omega)
      exact hnot ((List.suffix_append before literal).isInfix.trans hprefix.isInfix)
    have hstart : text.length - carryChars ≤ before.length := by omega
    refine ⟨before.drop (text.length - carryChars), after, ?_⟩
    rw [← heq, List.append_assoc, List.append_assoc, List.drop_append_of_le_length hstart]
  · exact fun h => h.trans (List.drop_suffix _ _).isInfix

end Window

/-! ## Runs -/

section Runs

variable {Pattern : Type} {regex : Regex Pattern} {rules : RuleSet Pattern}
  {literal : Pattern → Text} {text : Text} {m : SlidingWindowMatcher Pattern}

/-- The `Block` patterns are literals a window suffices for, and the engine
finds a literal exactly where it occurs. -/
def Literals (regex : Regex Pattern) (rules : RuleSet Pattern) (literal : Pattern → Text) : Prop :=
  ∀ rule ∈ rules, rule.action = .block → (literal rule.pattern).length ≤ 129 ∧
    ∀ text, regex.isMatch rule.pattern text = true ↔ literal rule.pattern <:+: text

/-- One of the literals occurs in a text. -/
def Contains (rules : RuleSet Pattern) (literal : Pattern → Text) (text : Text) : Prop :=
  ∃ rule ∈ rules, rule.action = .block ∧ literal rule.pattern <:+: text

theorem Contains.mono {text' : Text} (h : Contains rules literal text) (hpart : text <:+: text') :
    Contains rules literal text' := by
  obtain ⟨rule, hrule, hblock, hoccurs⟩ := h
  exact ⟨rule, hrule, hblock, hoccurs.trans hpart⟩

theorem firstBlock_isSome_iff (h : Literals regex rules literal) (text : Text) :
    (firstBlock regex rules text).isSome ↔ Contains rules literal text := by
  unfold firstBlock Contains
  rw [Option.isSome_map, List.find?_isSome]
  constructor
  · rintro ⟨rule, hrule, hmatch⟩
    rw [Bool.and_eq_true, decide_eq_true_eq] at hmatch
    exact ⟨rule, hrule, hmatch.1, ((h rule hrule hmatch.1).2 text).mp hmatch.2⟩
  · rintro ⟨rule, hrule, hblock, hoccurs⟩
    refine ⟨rule, hrule, ?_⟩
    rw [Bool.and_eq_true, decide_eq_true_eq]
    exact ⟨hblock, ((h rule hrule hblock).2 text).mpr hoccurs⟩

/-- **A matcher that has seen a text**, and found nothing in it. -/
structure Seen (rules : RuleSet Pattern) (literal : Pattern → Text)
    (m : SlidingWindowMatcher Pattern) (text : Text) : Prop where
  sameRules : m.rules = rules
  carry : m.carry = text.drop (text.length - carryChars)
  quiet : text = [] ∨ ¬Contains rules literal text

theorem seen_new : Seen rules literal (.new rules) [] := ⟨rfl, rfl, .inl rfl⟩

section

variable (h : Seen rules literal m text)

include h

section

variable (hl : Literals regex rules literal)

include hl

/-- The window shows every occurrence that a delta completes. -/
theorem Seen.contains_iff (delta : Text) :
    Contains rules literal (m.carry ++ delta) ↔ Contains rules literal (text ++ delta) := by
  rw [h.carry]
  cases h.quiet with
  | inl hnil => rw [hnil]; rfl
  | inr hquiet =>
    have hiff : ∀ rule ∈ rules, rule.action = .block →
        (literal rule.pattern <:+: text.drop (text.length - carryChars) ++ delta ↔
          literal rule.pattern <:+: text ++ delta) := fun rule hrule hblock =>
      (infix_append_iff (hl rule hrule hblock).1
        (fun hoccurs => hquiet ⟨rule, hrule, hblock, hoccurs⟩)).symm
    constructor
    · rintro ⟨rule, hrule, hblock, hoccurs⟩
      exact ⟨rule, hrule, hblock, (hiff rule hrule hblock).mp hoccurs⟩
    · rintro ⟨rule, hrule, hblock, hoccurs⟩
      exact ⟨rule, hrule, hblock, (hiff rule hrule hblock).mpr hoccurs⟩

theorem feed_blocked {delta : Text} (hcontains : Contains rules literal (text ++ delta)) :
    ∃ name, m.feed regex delta = (.blocked name, m) := by
  rw [← h.contains_iff hl delta, ← firstBlock_isSome_iff hl, Option.isSome_iff_exists] at hcontains
  obtain ⟨name, hname⟩ := hcontains
  refine ⟨name, ?_⟩
  unfold SlidingWindowMatcher.feed
  dsimp only
  rw [h.sameRules, hname]

theorem feed_emit {delta : Text} (hquiet : ¬Contains rules literal (text ++ delta)) :
    ∃ m', m.feed regex delta = (.emit (redact regex rules delta).1, m') ∧
      Seen rules literal m' (text ++ delta) := by
  have hnone : firstBlock regex rules (m.carry ++ delta) = none := by
    rw [← Option.not_isSome_iff_eq_none, firstBlock_isSome_iff hl, h.contains_iff hl]
    exact hquiet
  let keep := min (m.carry ++ delta).length carryChars
  refine ⟨⟨m.rules, (m.carry ++ delta).drop ((m.carry ++ delta).length - keep)⟩, ?_, ?_⟩
  · unfold SlidingWindowMatcher.feed
    dsimp only
    rw [h.sameRules, hnone]
  · refine ⟨h.sameRules, ?_, .inr hquiet⟩
    show (m.carry ++ delta).drop ((m.carry ++ delta).length - keep) = _
    have hkeep : keep = min (m.carry ++ delta).length carryChars := rfl
    have hle : text.length - carryChars ≤ text.length := Nat.sub_le _ _
    rw [h.carry, ← List.drop_append_of_le_length hle] at hkeep ⊢
    rw [List.length_drop, List.length_append] at hkeep ⊢
    rw [List.drop_drop]
    refine congrArg (fun n => List.drop n (text ++ delta)) ?_
    omega

/-- **Where a stream is blocked**: at the first delta that completes an
occurrence, after the text seen so far. -/
theorem run_blocked_iff (ops : List Op) (k : ℕ) :
    (∃ name, (run regex m ops)[k]? = some (.blocked name)) ↔ k < (deltas ops).length ∧
      Contains rules literal (text ++ ((deltas ops).take (k + 1)).flatten) ∧
      ∀ j < k, ¬Contains rules literal (text ++ ((deltas ops).take (j + 1)).flatten) := by
  induction ops generalizing m text k with
  | nil => simp [run, deltas]
  | cons op ops ih =>
    cases op with
    | resume => exact ih h k
    | feed delta =>
      have hfirst : text ++ ((deltas (.feed delta :: ops)).take 1).flatten = text ++ delta := by
        simp [deltas]
      by_cases hcontains : Contains rules literal (text ++ delta)
      · obtain ⟨name, hname⟩ := feed_blocked h hl hcontains
        have hrun : run regex m (.feed delta :: ops) = [.blocked name] := by
          rw [run, hname]
        rw [hrun]
        cases k with
        | zero =>
          refine ⟨fun _ => ⟨Nat.succ_pos _, ?_, by simp⟩, fun _ => ⟨name, rfl⟩⟩
          rw [hfirst]
          exact hcontains
        | succ k =>
          constructor
          · rintro ⟨name', hname'⟩
            simp at hname'
          · rintro ⟨-, -, hbefore⟩
            refine absurd ?_ (hbefore 0 (Nat.succ_pos _))
            rw [hfirst]
            exact hcontains
      · obtain ⟨m', hfeed, hseen⟩ := feed_emit h hl hcontains
        have hrun : run regex m (.feed delta :: ops) =
            .emit (redact regex rules delta).1 :: run regex m' ops := by
          rw [run, hfeed]
        rw [hrun]
        cases k with
        | zero =>
          constructor
          · rintro ⟨name, hname⟩
            simp at hname
          · rintro ⟨-, hfound, -⟩
            rw [hfirst] at hfound
            exact absurd hfound hcontains
        | succ k =>
          have hrest : ∀ j, text ++ ((deltas (.feed delta :: ops)).take (j + 1)).flatten =
              text ++ delta ++ ((deltas ops).take j).flatten := by
            intro j
            simp [deltas]
          rw [List.getElem?_cons_succ, ih hseen k]
          simp only [hrest]
          refine and_congr ?_ (and_congr Iff.rfl ⟨fun hbefore j hj => ?_, fun hbefore j hj => ?_⟩)
          · simp [deltas]
          · cases j with
            | zero => simpa using hcontains
            | succ j => exact hbefore j (Nat.lt_of_succ_lt_succ hj)
          · exact hbefore (j + 1) (Nat.succ_lt_succ hj)

/-- **What is emitted completes no occurrence.** -/
theorem quiet_of_emit
    {ops : List Op} {k : ℕ} {out : Text} (hout : (run regex m ops)[k]? = some (.emit out)) :
    ¬Contains rules literal (text ++ ((deltas ops).take (k + 1)).flatten) := by
  induction ops generalizing m text k with
  | nil => simp [run] at hout
  | cons op ops ih =>
    cases op with
    | resume => exact ih h hout
    | feed delta =>
      by_cases hcontains : Contains rules literal (text ++ delta)
      · obtain ⟨name, hname⟩ := feed_blocked h hl hcontains
        rw [run, hname] at hout
        cases k <;> simp at hout
      · obtain ⟨m', hfeed, hseen⟩ := feed_emit h hl hcontains
        rw [run, hfeed] at hout
        cases k with
        | zero => simpa [deltas] using hcontains
        | succ k =>
          have hquiet := ih hseen (by simpa using hout)
          simpa [deltas] using hquiet

end

end

/-- **A stream is blocked exactly if a literal occurs in it**, at the first
delta that completes an occurrence; what was emitted before completes none. -/
theorem stream_blocked_iff (literal : Pattern → Text) (hl : Literals regex rules literal)
    (ops : List Op) (hops : deltas ops ≠ []) :
    ((∃ name, .blocked name ∈ run regex (.new rules) ops) ↔
      Contains rules literal (deltas ops).flatten) ∧
    (∀ k, (∃ name, (run regex (.new rules) ops)[k]? = some (.blocked name)) ↔
      k < (deltas ops).length ∧ Contains rules literal ((deltas ops).take (k + 1)).flatten ∧
        ∀ j < k, ¬Contains rules literal ((deltas ops).take (j + 1)).flatten) ∧
    (∀ k out, (run regex (.new rules) ops)[k]? = some (.emit out) →
      ¬Contains rules literal ((deltas ops).take (k + 1)).flatten) := by
  have hseen : Seen rules literal (.new rules) [] := seen_new
  have hblocked := run_blocked_iff hseen hl ops
  refine ⟨⟨?_, fun hcontains => ?_⟩, hblocked, fun k out hout => quiet_of_emit hseen hl hout⟩
  · rintro ⟨name, hmem⟩
    obtain ⟨k, hk⟩ := List.getElem?_of_mem hmem
    obtain ⟨-, hcontains, -⟩ := (hblocked k).mp ⟨name, hk⟩
    refine hcontains.mono ?_
    have hsplit : (deltas ops).flatten =
        ((deltas ops).take (k + 1)).flatten ++ ((deltas ops).drop (k + 1)).flatten := by
      rw [← List.flatten_append, List.take_append_drop]
    rw [hsplit]
    exact (List.prefix_append _ _).isInfix
  · classical
    have hlength : 0 < (deltas ops).length := List.length_pos_of_ne_nil hops
    have hex : ∃ j, Contains rules literal ((deltas ops).take (j + 1)).flatten := by
      refine ⟨(deltas ops).length - 1, ?_⟩
      rw [Nat.sub_add_cancel hlength, List.take_length]
      exact hcontains
    have hfirst : Nat.find hex ≤ (deltas ops).length - 1 := by
      refine Nat.find_min' hex ?_
      rw [Nat.sub_add_cancel hlength, List.take_length]
      exact hcontains
    obtain ⟨name, hname⟩ := (hblocked (Nat.find hex)).mpr
      ⟨by omega, Nat.find_spec hex, fun j hj => Nat.find_min hex hj⟩
    exact ⟨name, List.mem_of_getElem? hname⟩

end Runs

/-! ## Literals -/

/-- Replace a non-empty literal, `skip` characters of it still to be left out. -/
def replaceFrom (literal replacement : Text) : ℕ → Text → Text
  | _, [] => []
  | skip + 1, _ :: text => replaceFrom literal replacement skip text
  | 0, c :: text =>
    if literal <+: c :: text then
      replacement ++ replaceFrom literal replacement (literal.length - 1) text
    else c :: replaceFrom literal replacement 0 text

/-- An engine whose patterns are literals. -/
def literals : Regex Text where
  isMatch literal text := decide (literal <:+: text)
  replaceAll literal text replacement := replaceFrom literal replacement 0 text

/-- A literal across two deltas is found, with the window persisted between
them. -/
theorem stream_blocked_across :
    Contains [⟨"badword", ['n', 'o'], .block⟩] id
      (deltas [.feed ['n'], .resume, .feed ['o']]).flatten := by
  have hl : Literals literals [⟨"badword", ['n', 'o'], .block⟩] id := by
    intro rule hrule _
    obtain rfl := List.mem_singleton.mp hrule
    exact ⟨by decide, fun text => decide_eq_true_iff⟩
  exact (stream_blocked_iff id hl [.feed ['n'], .resume, .feed ['o']] (by decide)).1.mp
    ⟨"badword", by decide⟩

/-- Fed on after its verdict, a matcher emits a delta that completes an
occurrence; and no delta at all is blocked for the empty literal, which occurs in
every text. -/
theorem fed_on_misses :
    let rules : RuleSet Text := [⟨"first", ['a', 'b'], .block⟩, ⟨"second", ['b', 'c'], .block⟩]
    let fed := (SlidingWindowMatcher.new rules).feed literals ['a', 'b']
    (fed.1 = .blocked "first" ∧ (fed.2.feed literals ['c']).1 = .emit ['c'] ∧
      ['b', 'c'] <:+: ['a', 'b'] ++ ['c'] ∧ ¬['b', 'c'] <:+: ['a', 'b']) ∧
    (run literals (.new [⟨"empty", [], .block⟩]) [] = [] ∧ ([] : Text) <:+: []) := by
  decide

end BitRouter.Guardrails
