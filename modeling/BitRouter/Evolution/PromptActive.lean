import BitRouter.Data.IndexMap
import BitRouter.Data.Result
import Mathlib.Data.List.Sort
import Mathlib.MeasureTheory.Measure.Lebesgue.Basic

/-!
# The time a prompt is active

`prompt_active_ms` pairs the requests and responses of the prompts of a
session, sorts the intervals between them and merges those that touch. The
pairing goes event by event over all connections at once; what it accepts is a
condition on each call alone (`Closes`), so that the order in which different
calls are interleaved is of no account. The merge keeps one interval apart from
all that went before, and so adds up to the length of the union.

The times are those of the clock that captured the events, in milliseconds: an
`i64`, whose difference is taken modulo `2^64`.
-/

namespace BitRouter.PromptActive

open MeasureTheory

inductive CaptureKind
  | connected
  | request
  | notification
  | response
  | disconnected
  deriving DecidableEq, Repr

structure CaptureEvent where
  method : String
  callId : Option UInt64
  kind : CaptureKind

structure CanonicalEvent where
  nodeId : String
  capturedAt : String
  event : CaptureEvent

/-- A connection and a call of it. -/
abbrev Key := String × UInt64

abbrev Interval := ℤ × ℤ

/-- What stands before the last colon of a node. -/
def connection (nodeId : String) : Option String :=
  match nodeId.toList.reverse.dropWhile (· ≠ ':') with
  | [] => none
  | _ :: before => some (String.ofList before.reverse)

def keyOf (node : CanonicalEvent) : Option Key :=
  node.event.callId.bind (fun callId => (connection node.nodeId).map (fun c => (c, callId)))

/-- The intervals of the events, if their requests and responses pair up.
`millis` reads a time of capture. -/
def scan (millis : String → Except String ℤ) :
    List CanonicalEvent → List (Key × ℤ) → List Interval → Except String (Option (List Interval))
  | [], starts, intervals =>
    .ok (if ¬starts.isEmpty ∨ intervals.isEmpty then none else some intervals)
  | node :: events, starts, intervals =>
    match keyOf node with
    | none => .ok none
    | some key => do
      let time ← millis node.capturedAt
      match node.event.kind, IndexMap.get starts key with
      | .request, some _ => .ok none
      | .request, none => scan millis events (IndexMap.insert starts key time) intervals
      | .response, none => .ok none
      | .response, some start =>
        if time < start then .ok none
        else scan millis events (IndexMap.erase starts key) (intervals ++ [(start, time)])
      | _, _ => scan millis events starts intervals

/-- The difference of two `i64`. -/
def subtract (a b : ℤ) : ℤ := Int.bmod (a - b) (2 ^ 64)

/-- A duration and the length of an interval. -/
def extend (duration : ℕ) (left right : ℤ) : Except String ℕ :=
  if subtract right left < 0 then .error "out of range integral type conversion attempted"
  else if duration + (subtract right left).toNat < 2 ^ 64 then
    .ok (duration + (subtract right left).toNat)
  else .error "prompt duration overflow"

/-- One interval more: it touches the one still open, or closes it. -/
def merge (state : Option Interval × ℕ) (interval : Interval) :
    Except String (Option Interval × ℕ) :=
  match state.1 with
  | none => .ok (some interval, state.2)
  | some (left, right) =>
    if interval.1 ≤ right then .ok (some (left, max right interval.2), state.2)
    else do return (some interval, ← extend state.2 left right)

/-- The duration once the last interval is closed. -/
def finish (state : Option Interval × ℕ) : Except String ℕ :=
  match state.1 with
  | none => .ok state.2
  | some (left, right) => extend state.2 left right

/-- The order of intervals. -/
def Before (a b : Interval) : Prop := a.1 < b.1 ∨ a.1 = b.1 ∧ a.2 ≤ b.2

instance : DecidableRel Before := fun _ _ => inferInstanceAs (Decidable (_ ∨ _))

/-- **Union of observed prompt-active intervals.** -/
def promptActiveMs (millis : String → Except String ℤ) (events : List CanonicalEvent) :
    Except String (Option ℕ) := do
  match ← scan millis (events.filter (fun node => node.event.method = "session/prompt")) [] [] with
  | none => .ok none
  | some intervals =>
    let state ← (intervals.insertionSort Before).foldlM merge (none, 0)
    return some (← finish state)

/-! ## Calls -/

section Calls

/-- **A call that closes**: from a request that is open or from none, every
request is followed by one response before the next, none comes without a
request or before it, and nothing is left open. -/
def Closes : Option ℤ → List (CaptureKind × ℤ) → Prop
  | none, [] => True
  | some _, [] => False
  | none, (.request, time) :: calls => Closes (some time) calls
  | some _, (.request, _) :: _ => False
  | none, (.response, _) :: _ => False
  | some start, (.response, time) :: calls => start ≤ time ∧ Closes none calls
  | start, _ :: calls => Closes start calls

def pairs : Option ℤ → List (CaptureKind × ℤ) → List Interval
  | _, [] => []
  | _, (.request, time) :: calls => pairs (some time) calls
  | some start, (.response, time) :: calls => (start, time) :: pairs none calls
  | start, _ :: calls => pairs start calls

def calls (time : CanonicalEvent → ℤ) (key : Key) (events : List CanonicalEvent) :
    List (CaptureKind × ℤ) :=
  (events.filter (fun node => keyOf node = some key)).map (fun node => (node.event.kind, time node))

variable {time : CanonicalEvent → ℤ} {key : Key} {node : CanonicalEvent}
  {events : List CanonicalEvent}

theorem calls_self (h : keyOf node = some key) :
    calls time key (node :: events) = (node.event.kind, time node) :: calls time key events := by
  unfold calls
  rw [List.filter_cons_of_pos (by simpa using h), List.map_cons]

theorem calls_of_ne (h : keyOf node ≠ some key) :
    calls time key (node :: events) = calls time key events := by
  unfold calls
  rw [List.filter_cons_of_neg (by simpa using h)]

theorem mem_pairs {start : Option ℤ} {cs : List (CaptureKind × ℤ)} {p : Interval}
    (hcloses : Closes start cs) (h : p ∈ pairs start cs) :
    p.1 ≤ p.2 ∧ (start = some p.1 ∨ ∃ kind, (kind, p.1) ∈ cs) ∧ ∃ kind, (kind, p.2) ∈ cs := by
  induction cs generalizing start with
  | nil => cases start <;> cases h
  | cons c cs ih =>
    obtain ⟨kind, t⟩ := c
    have hlift : ∀ start', Closes start' cs → p ∈ pairs start' cs →
        (start' = start ∨ start' = some t ∨ start' = none) →
        p.1 ≤ p.2 ∧ (start = some p.1 ∨ ∃ kind', (kind', p.1) ∈ (kind, t) :: cs) ∧
          ∃ kind', (kind', p.2) ∈ (kind, t) :: cs := by
      intro start' hc hp hstart'
      obtain ⟨hle, hfirst, kind', hsecond⟩ := ih hc hp
      refine ⟨hle, ?_, kind', List.mem_cons_of_mem _ hsecond⟩
      rcases hfirst with hfirst | ⟨kind'', hfirst⟩
      · rcases hstart' with rfl | rfl | rfl
        · exact Or.inl hfirst
        · obtain rfl := Option.some.inj hfirst
          exact Or.inr ⟨kind, List.mem_cons_self⟩
        · cases hfirst
      · exact Or.inr ⟨kind'', List.mem_cons_of_mem _ hfirst⟩
    cases kind with
    | request =>
      cases start with
      | none => exact hlift (some t) hcloses h (Or.inr (Or.inl rfl))
      | some start => exact hcloses.elim
    | response =>
      cases start with
      | none => exact hcloses.elim
      | some start =>
        obtain ⟨hle, hrest⟩ := hcloses
        cases List.mem_cons.mp h with
        | inl heq =>
          subst heq
          exact ⟨hle, Or.inl rfl, .response, List.mem_cons_self⟩
        | inr hmem => exact hlift none hrest hmem (Or.inr (Or.inr rfl))
    | _ => cases start <;> exact hlift _ hcloses h (Or.inl rfl)

end Calls

/-! ## Pairing -/

section Scan

variable {millis : String → Except String ℤ} {time : CanonicalEvent → ℤ}
  {starts : List (Key × ℤ)} {acc is : List Interval}

theorem ok_bind {α β : Type} (a : α) (f : α → Except String β) :
    ((.ok a : Except String α) >>= f) = f a := rfl

/-- **What the scan accepts**: every call closes, from where it stands. -/
structure Pairs (time : CanonicalEvent → ℤ) (starts : List (Key × ℤ)) (acc : List Interval)
    (events : List CanonicalEvent) : Prop where
  named : ∀ node ∈ events, (keyOf node).isSome
  closes : ∀ key, Closes (IndexMap.get starts key) (calls time key events)
  some : acc ≠ [] ∨ ∃ key p, p ∈ pairs (IndexMap.get starts key) (calls time key events)

theorem isEmpty_iff : starts.isEmpty ↔ ∀ key, IndexMap.get starts key = none := by
  cases starts with
  | nil => simp
  | cons e starts =>
    refine ⟨fun h => (Bool.false_ne_true h).elim, fun h => ?_⟩
    have hhead := h e.1
    rw [IndexMap.get, if_pos rfl] at hhead
    cases hhead

theorem scan_move {node : CanonicalEvent} {events : List CanonicalEvent} {key : Key}
    {starts' : List (Key × ℤ)} {acc' : List Interval} (hkey : keyOf node = some key)
    (hother : ∀ k, k ≠ key → IndexMap.get starts' k = IndexMap.get starts k)
    (hcloses : Closes (IndexMap.get starts' key) (calls time key events) ↔
      Closes (IndexMap.get starts key) ((node.event.kind, time node) :: calls time key events))
    (hpairs : ∀ p, (p ∈ acc' ∨ p ∈ pairs (IndexMap.get starts' key) (calls time key events)) ↔
      p ∈ acc ∨ p ∈ pairs (IndexMap.get starts key)
        ((node.event.kind, time node) :: calls time key events)) :
    (Pairs time starts' acc' events ↔ Pairs time starts acc (node :: events)) ∧
    ∀ p, (p ∈ acc' ∨ ∃ k, p ∈ pairs (IndexMap.get starts' k) (calls time k events)) ↔
      p ∈ acc ∨ ∃ k, p ∈ pairs (IndexMap.get starts k) (calls time k (node :: events)) := by
  have hne : ∀ k, k ≠ key → keyOf node ≠ some k := by
    rintro k hk hnode
    rw [hkey] at hnode
    exact hk (Option.some.inj hnode).symm
  have hset : ∀ p, (p ∈ acc' ∨ ∃ k, p ∈ pairs (IndexMap.get starts' k) (calls time k events)) ↔
      p ∈ acc ∨ ∃ k, p ∈ pairs (IndexMap.get starts k) (calls time k (node :: events)) := by
    intro p
    have hk : ∀ k, k ≠ key →
        (p ∈ pairs (IndexMap.get starts' k) (calls time k events) ↔
          p ∈ pairs (IndexMap.get starts k) (calls time k (node :: events))) := by
      intro k hk
      rw [hother k hk, calls_of_ne (hne k hk)]
    have hp := hpairs p
    rw [← calls_self hkey] at hp
    constructor
    · rintro (hacc | ⟨k, hmem⟩)
      · exact (hp.mp (Or.inl hacc)).imp_right (fun h => ⟨key, h⟩)
      · by_cases heq : k = key
        · subst heq
          exact (hp.mp (Or.inr hmem)).imp_right (fun h => ⟨k, h⟩)
        · exact Or.inr ⟨k, (hk k heq).mp hmem⟩
    · rintro (hacc | ⟨k, hmem⟩)
      · exact (hp.mpr (Or.inl hacc)).imp_right (fun h => ⟨key, h⟩)
      · by_cases heq : k = key
        · subst heq
          exact (hp.mpr (Or.inr hmem)).imp_right (fun h => ⟨k, h⟩)
        · exact Or.inr ⟨k, (hk k heq).mpr hmem⟩
  have hsome : ∀ (l : List Interval) (P : Interval → Prop), (l ≠ [] ∨ ∃ p, P p) ↔
      ∃ p, p ∈ l ∨ P p := by
    intro l P
    rw [exists_or]
    exact or_congr_left ⟨List.exists_mem_of_ne_nil l, fun ⟨_, hp⟩ => List.ne_nil_of_mem hp⟩
  refine ⟨⟨fun h => ⟨?_, fun k => ?_, ?_⟩, fun h => ⟨?_, fun k => ?_, ?_⟩⟩, hset⟩
  · intro n hn
    cases List.mem_cons.mp hn with
    | inl heq => rw [heq, hkey]; rfl
    | inr hn => exact h.named n hn
  · by_cases heq : k = key
    · subst heq
      rw [calls_self hkey]
      exact hcloses.mp (h.closes k)
    · rw [calls_of_ne (hne k heq), ← hother k heq]
      exact h.closes k
  · have hgiven := h.some
    rw [exists_comm, hsome] at hgiven ⊢
    obtain ⟨p, hp⟩ := hgiven
    exact ⟨p, (hset p).mp hp⟩
  · exact fun n hn => h.named n (List.mem_cons_of_mem _ hn)
  · by_cases heq : k = key
    · subst heq
      refine hcloses.mpr ?_
      rw [← calls_self hkey]
      exact h.closes k
    · rw [hother k heq, ← calls_of_ne (hne k heq)]
      exact h.closes k
  · have hgiven := h.some
    rw [exists_comm, hsome] at hgiven ⊢
    obtain ⟨p, hp⟩ := hgiven
    exact ⟨p, (hset p).mpr hp⟩

/-- **The scan pairs the calls**, over any interleaving of them. -/
theorem scan_spec {events : List CanonicalEvent}
    (hparsed : ∀ node ∈ events, millis node.capturedAt = .ok (time node)) :
    (¬Pairs time starts acc events ∧ scan millis events starts acc = .ok none) ∨
      Pairs time starts acc events ∧ ∃ is, scan millis events starts acc = .ok (some is) ∧
        ∀ p, p ∈ is ↔
          p ∈ acc ∨ ∃ k, p ∈ pairs (IndexMap.get starts k) (calls time k events) := by
  induction events generalizing starts acc with
  | nil =>
    have hpairs : ∀ k, pairs (IndexMap.get starts k) (calls time k []) = [] := by
      intro k
      show pairs _ [] = []
      rw [pairs]
    have hcloses : (∀ k, Closes (IndexMap.get starts k) (calls time k [])) ↔ starts.isEmpty := by
      rw [isEmpty_iff]
      refine forall_congr' (fun k => ?_)
      show Closes _ [] ↔ _
      cases IndexMap.get starts k with
      | none => simp [Closes]
      | some s => simp [Closes]
    unfold scan
    split
    · next hnot =>
      refine Or.inl ⟨fun h => ?_, rfl⟩
      rcases hnot with hopen | hempty
      · exact hopen (hcloses.mp h.closes)
      · rcases h.some with hacc | ⟨k, p, hp⟩
        · exact hacc (List.isEmpty_iff.mp hempty)
        · rw [hpairs] at hp
          cases hp
    · next hok =>
      rw [not_or, not_not] at hok
      refine Or.inr ⟨⟨fun n hn => (List.not_mem_nil hn).elim, hcloses.mpr hok.1,
        Or.inl ?_⟩, acc, rfl,
        fun p => ?_⟩
      · exact fun hnil => hok.2 (List.isEmpty_iff.mpr hnil)
      · simp [hpairs]
  | cons node events ih =>
    have hrest : ∀ n ∈ events, millis n.capturedAt = .ok (time n) := fun n hn =>
      hparsed n (List.mem_cons_of_mem _ hn)
    unfold scan
    cases hkey : keyOf node with
    | none =>
      refine Or.inl ⟨fun h => ?_, rfl⟩
      have hnamed := h.named node List.mem_cons_self
      rw [hkey] at hnamed
      cases hnamed
    | some key =>
      simp only [hparsed node List.mem_cons_self, ok_bind]
      -- the branches that go on are moves, the others refuse the call
      have hmove : ∀ starts' acc',
          (∀ k, k ≠ key → IndexMap.get starts' k = IndexMap.get starts k) →
          (Closes (IndexMap.get starts' key) (calls time key events) ↔
            Closes (IndexMap.get starts key)
            ((node.event.kind, time node) :: calls time key events)) →
          (∀ p, (p ∈ acc' ∨ p ∈ pairs (IndexMap.get starts' key) (calls time key events)) ↔
            p ∈ acc ∨ p ∈ pairs (IndexMap.get starts key)
              ((node.event.kind, time node) :: calls time key events)) →
          (¬Pairs time starts acc (node :: events) ∧ scan millis events starts' acc' = .ok none) ∨
            Pairs time starts acc (node :: events) ∧
              ∃ is, scan millis events starts' acc' = .ok (some is) ∧ ∀ p, p ∈ is ↔ p ∈ acc ∨
                ∃ k, p ∈ pairs (IndexMap.get starts k) (calls time k (node :: events)) := by
        intro starts' acc' hother hcloses hpairs
        obtain ⟨hiff, hset⟩ := scan_move hkey hother hcloses hpairs
        rcases @ih starts' acc' hrest with ⟨hno, heq⟩ | ⟨hyes, is, heq, hmem⟩
        · exact Or.inl ⟨fun h => hno (hiff.mpr h), heq⟩
        · exact Or.inr ⟨hiff.mp hyes, is, heq, fun p => (hmem p).trans (hset p)⟩
      have hrefuse : ¬Closes (IndexMap.get starts key)
          ((node.event.kind, time node) :: calls time key events) →
          ¬Pairs time starts acc (node :: events) := by
        intro hnot h
        have hclose := h.closes key
        rw [calls_self hkey] at hclose
        exact hnot hclose
      cases hkind : node.event.kind with
      | request =>
        cases hget : IndexMap.get starts key with
        | some s =>
          refine Or.inl ⟨hrefuse ?_, rfl⟩
          rw [hkind, hget]
          exact id
        | none =>
          refine hmove _ acc (fun k hk => IndexMap.get_insert_of_ne _ _ (Ne.symm hk))
            ?_ (fun p => ?_)
          · rw [IndexMap.get_insert_self, hkind, hget]
            rfl
          · rw [IndexMap.get_insert_self, hkind, hget]
            rfl
      | response =>
        cases hget : IndexMap.get starts key with
        | none =>
          refine Or.inl ⟨hrefuse ?_, rfl⟩
          rw [hkind, hget]
          exact id
        | some s =>
          dsimp only
          by_cases hlt : time node < s
          · rw [if_pos hlt]
            refine Or.inl ⟨hrefuse ?_, rfl⟩
            rw [hkind, hget]
            exact fun h => absurd h.1 (not_le.mpr hlt)
          · rw [if_neg hlt]
            have herase : IndexMap.get (IndexMap.erase starts key) key = none := by
              rw [IndexMap.get_erase, if_pos rfl]
            refine hmove _ _ (fun k hk => by rw [IndexMap.get_erase, if_neg hk]) ?_ (fun p => ?_)
            · rw [herase, hkind, hget]
              exact ⟨fun h => ⟨not_lt.mp hlt, h⟩, And.right⟩
            · rw [herase, hkind, hget, List.mem_append, List.mem_singleton, pairs, List.mem_cons,
                or_assoc]
      | _ =>
        have hskip : ∀ start cs, (Closes start ((node.event.kind, time node) :: cs) ↔
            Closes start cs) ∧ pairs start ((node.event.kind, time node) :: cs)
                = pairs start cs := by
          intro start cs
          rw [hkind]
          cases start <;> exact ⟨Iff.rfl, rfl⟩
        cases hget : IndexMap.get starts key <;>
          exact hmove starts acc (fun k _ => rfl) (hskip _ _).1.symm
            (fun p => by rw [(hskip _ _).2])

end Scan

/-! ## Merging -/

section Merge

variable {is : List Interval} {left right : ℤ} {duration : ℕ}

/-- The union of closed intervals. -/
def union (is : List Interval) : Set ℝ := ⋃ p ∈ is, Set.Icc (p.1 : ℝ) p.2

theorem union_cons (p : Interval) (is : List Interval) :
    union (p :: is) = Set.Icc (p.1 : ℝ) p.2 ∪ union is := by
  unfold union
  simp only [List.mem_cons, Set.iUnion_iUnion_eq_or_left]

theorem volume_interval (h : left ≤ right) :
    volume (Set.Icc (left : ℝ) right) = ((right - left).toNat : ENNReal) := by
  have hcast : ((right : ℝ) - left) = ((right - left).toNat : ℝ) := by
    have hnat : ((right - left).toNat : ℤ) = right - left := Int.toNat_of_nonneg (by omega)
    calc (right : ℝ) - left = ((right - left : ℤ) : ℝ) := (Int.cast_sub _ _).symm
      _ = (((right - left).toNat : ℤ) : ℝ) := by rw [hnat]
      _ = ((right - left).toNat : ℝ) := Int.cast_natCast _
  rw [Real.volume_Icc, hcast, ENNReal.ofReal_natCast]

theorem extend_eq (hle : left ≤ right) (hfits : right - left < 2 ^ 63)
    (hduration : duration + (right - left).toNat < 2 ^ 64) :
    extend duration left right = .ok (duration + (right - left).toNat) := by
  have hsubtract : subtract right left = right - left := by
    exact Int.bmod_eq_of_le (by norm_num; omega) (by norm_num; omega)
  unfold extend
  rw [hsubtract, if_neg (by omega), if_pos hduration]

/-- **What the merge adds up is the length of the union**: the intervals still
to come start no earlier than the open one. -/
theorem merge_spec (lo : ℤ) (hle : left ≤ right) (hlo : (duration : ℤ) ≤ left - lo)
    (hfits : right - lo < 2 ^ 63) (hsorted : is.Pairwise (fun a b => a.1 ≤ b.1))
    (hleft : ∀ p ∈ is, left ≤ p.1) (his : ∀ p ∈ is, p.1 ≤ p.2 ∧ p.2 - lo < 2 ^ 63) :
    ∃ d : ℕ, (is.foldlM merge (some (left, right), duration) >>= finish) = .ok d ∧
      (d : ENNReal) = duration + volume (Set.Icc (left : ℝ) right ∪ union is) := by
  induction is generalizing left right duration with
  | nil =>
    refine ⟨duration + (right - left).toNat, extend_eq hle (by omega) (by omega), ?_⟩
    rw [show union [] = ∅ by simp [union], Set.union_empty, volume_interval hle, Nat.cast_add]
  | cons p is ih =>
    obtain ⟨s, e⟩ := p
    obtain ⟨hfirst, hsorted⟩ := List.pairwise_cons.mp hsorted
    obtain ⟨hse, he⟩ := his (s, e) List.mem_cons_self
    have hls : left ≤ s := hleft (s, e) List.mem_cons_self
    have hrest : ∀ q ∈ is, q.1 ≤ q.2 ∧ q.2 - lo < 2 ^ 63 := fun q hq =>
      his q (List.mem_cons_of_mem _ hq)
    rw [List.foldlM_cons, union_cons]
    by_cases htouch : s ≤ right
    · have hmerge : merge (some (left, right), duration) (s, e) =
          .ok (some (left, max right e), duration) := if_pos htouch
      rw [hmerge]
      obtain ⟨d, hd, hvolume⟩ := @ih left (max right e) duration
        (le_trans hle (le_max_left _ _)) hlo (by omega) hsorted
        (fun q hq => hleft q (List.mem_cons_of_mem _ hq)) hrest
      refine ⟨d, hd, ?_⟩
      rw [hvolume, ← Set.union_assoc, Set.Icc_union_Icc' (by exact_mod_cast htouch)
        (by exact_mod_cast le_trans hls hse), min_eq_left (by exact_mod_cast hls), Int.cast_max]
    · rw [not_le] at htouch
      have hmerge : merge (some (left, right), duration) (s, e) =
          .ok (some (s, e), duration + (right - left).toNat) := by
        show (if s ≤ right then _ else _) = _
        rw [if_neg (not_le.mpr htouch), extend_eq hle (by omega) (by omega)]
        rfl
      rw [hmerge]
      obtain ⟨d, hd, hvolume⟩ := @ih s e (duration + (right - left).toNat) hse (by omega)
        he hsorted hfirst hrest
      refine ⟨d, hd, ?_⟩
      -- all that is to come lies beyond the open interval
      have hdisjoint : Disjoint (Set.Icc (left : ℝ) right) (Set.Icc (s : ℝ) e ∪ union is) := by
        rw [Set.disjoint_left]
        rintro x ⟨-, hx⟩ hmem
        have hstart : (s : ℝ) ≤ x := by
          cases hmem with
          | inl h => exact h.1
          | inr h =>
            obtain ⟨q, hq, hxq⟩ := Set.mem_iUnion₂.mp h
            exact le_trans (by exact_mod_cast hfirst q hq) hxq.1
        exact absurd (le_trans hstart hx) (not_le.mpr (by exact_mod_cast htouch))
      rw [hvolume, measure_union' hdisjoint measurableSet_Icc, volume_interval hle, Nat.cast_add,
        add_assoc]

end Merge

/-! ## The duration -/

section Duration

variable {millis : String → Except String ℤ} {time : CanonicalEvent → ℤ}
  {events : List CanonicalEvent}

def active (time : CanonicalEvent → ℤ) (events : List CanonicalEvent) : Set ℝ :=
  ⋃ (key : Key) (p ∈ pairs none (calls time key events)), Set.Icc (p.1 : ℝ) p.2

theorem before_total : ∀ a b : Interval, Before a b ∨ Before b a := by
  rintro ⟨a, b⟩ ⟨c, d⟩
  unfold Before
  omega

theorem before_trans : ∀ a b c : Interval, Before a b → Before b c → Before a c := by
  rintro ⟨a, b⟩ ⟨c, d⟩ ⟨e, f⟩
  unfold Before
  omega

theorem duration_of_intervals {is : List Interval} (hne : is ≠ [])
    (hle : ∀ p ∈ is, p.1 ≤ p.2) (hfits : ∀ p ∈ is, ∀ q ∈ is, q.2 - p.1 < 2 ^ 63) :
    ∃ d : ℕ, ((is.insertionSort Before).foldlM merge (none, 0) >>= finish) = .ok d ∧
      (d : ENNReal) = volume (union is) := by
  have hmem : ∀ p, p ∈ is.insertionSort Before ↔ p ∈ is := fun p =>
    (List.perm_insertionSort Before is).mem_iff
  have hunion : union is = union (is.insertionSort Before) := by
    unfold union
    simp only [hmem]
  have : Std.Total Before := ⟨before_total⟩
  have : IsTrans Interval Before := ⟨before_trans⟩
  have hsorted := List.pairwise_insertionSort Before is
  rw [hunion]
  cases hcases : is.insertionSort Before with
  | nil =>
    have hlength := (List.perm_insertionSort Before is).length_eq
    rw [hcases] at hlength
    exact absurd (List.length_eq_zero_iff.mp hlength.symm) hne
  | cons p rest =>
    rw [hcases] at hsorted hmem
    obtain ⟨hfirst, hrest⟩ := List.pairwise_cons.mp hsorted
    have hstart : ∀ {a b : Interval}, Before a b → a.1 ≤ b.1 := by
      rintro a b (h | h)
      · exact le_of_lt h
      · exact le_of_eq h.1
    have hp : p ∈ is := (hmem p).mp List.mem_cons_self
    obtain ⟨d, hd, hvolume⟩ :=
      merge_spec p.1 (hle p hp) (Nat.cast_zero.trans_le (by omega) : ((0 : ℕ) : ℤ) ≤ p.1 - p.1)
      (hfits p hp p hp) (hrest.imp hstart) (fun q hq => hstart (hfirst q hq))
      (fun q hq => ⟨hle q ((hmem q).mp (List.mem_cons_of_mem _ hq)),
        hfits p hp q ((hmem q).mp (List.mem_cons_of_mem _ hq))⟩)
    refine ⟨d, hd, ?_⟩
    rw [hvolume, union_cons, Nat.cast_zero, zero_add]

theorem active_eq {is : List Interval}
    (h : ∀ p, p ∈ is ↔ ∃ key, p ∈ pairs none (calls time key events)) :
    union is = active time events := by
  ext x
  simp only [union, active, Set.mem_iUnion, h]
  constructor
  · rintro ⟨p, ⟨key, hp⟩, hx⟩
    exact ⟨key, p, hp, hx⟩
  · rintro ⟨key, p, hp, hx⟩
    exact ⟨p, ⟨key, hp⟩, hx⟩

/-- **The time a prompt is active**, over any interleaving of calls: known
exactly if every event names its call and every call closes, and then the
length of the union of the intervals between requests and responses. -/
theorem promptActiveMs_iff (hmethod : ∀ node ∈ events, node.event.method = "session/prompt")
    (hparsed : ∀ node ∈ events, millis node.capturedAt = .ok (time node))
    (hfits : ∀ a ∈ events, ∀ b ∈ events, time b - time a < 2 ^ 63) :
    ((∃ d, promptActiveMs millis events = .ok (some d)) ↔
      (∀ node ∈ events, (keyOf node).isSome) ∧
      (∃ key p, p ∈ pairs none (calls time key events)) ∧
      ∀ key, Closes none (calls time key events)) ∧
    ∀ d, promptActiveMs millis events = .ok (some d) →
      (d : ENNReal) = volume (active time events) := by
  have hfilter : events.filter (fun node => node.event.method = "session/prompt") = events :=
    List.filter_eq_self.mpr (fun node hnode => by simpa using hmethod node hnode)
  have hmem : ∀ {key kind t}, (kind, t) ∈ calls time key events →
      ∃ node ∈ events, time node = t := by
    intro key kind t ht
    obtain ⟨node, hnode, heq⟩ := List.mem_map.mp ht
    exact ⟨node, (List.mem_filter.mp hnode).1, (Prod.mk.inj heq).2⟩
  have hscan : scan millis
    (events.filter (fun node => node.event.method = "session/prompt")) [] [] =
      scan millis events [] [] := by rw [hfilter]
  rcases @scan_spec millis time [] [] events hparsed with ⟨hno, heq⟩ | ⟨hyes, is, heq, his⟩
  · have hresult : promptActiveMs millis events = .ok none := by
      unfold promptActiveMs
      rw [hscan, heq]
      rfl
    rw [hresult]
    refine ⟨⟨fun ⟨d, hd⟩ => by simp at hd, fun ⟨hnamed, hsome, hcloses⟩ => ?_⟩,
      fun d hd => by simp at hd⟩
    exact absurd ⟨hnamed, hcloses, Or.inr hsome⟩ hno
  · simp only [List.not_mem_nil, false_or, IndexMap.get_nil] at his
    have hsome : ∃ key p, p ∈ pairs none (calls time key events) :=
      hyes.some.resolve_left (fun h => h rfl)
    have hbounds : ∀ p ∈ is, p.1 ≤ p.2 ∧ (∃ a ∈ events, time a = p.1)
        ∧ ∃ b ∈ events, time b = p.2 := by
      intro p hp
      obtain ⟨key, hp⟩ := (his p).mp hp
      obtain ⟨hle, hfirst, kind, hsecond⟩ := mem_pairs (hyes.closes key) hp
      refine ⟨hle, ?_, hmem hsecond⟩
      rcases hfirst with hnone | ⟨kind', hfirst⟩
      · cases hnone
      · exact hmem hfirst
    have hne : is ≠ [] := by
      obtain ⟨key, p, hp⟩ := hsome
      exact List.ne_nil_of_mem ((his p).mpr ⟨key, hp⟩)
    obtain ⟨d, hd, hvolume⟩ := duration_of_intervals hne (fun p hp => (hbounds p hp).1)
      (fun p hp q hq => by
        obtain ⟨-, ⟨a, ha, hta⟩, -⟩ := hbounds p hp
        obtain ⟨-, -, b, hb, htb⟩ := hbounds q hq
        rw [← hta, ← htb]
        exact hfits a ha b hb)
    have hresult : promptActiveMs millis events = .ok (some d) := by
      unfold promptActiveMs
      rw [hscan, heq, ok_bind]
      obtain ⟨state, hstate, hfinish⟩ := bind_eq_ok.mp hd
      show ((is.insertionSort Before).foldlM merge (none, 0) >>= fun state => do
        return some (← finish state)) = _
      rw [hstate, ok_bind, hfinish]
      rfl
    refine ⟨⟨fun _ => ⟨hyes.named, hsome, hyes.closes⟩, fun _ => ⟨d, hresult⟩⟩, fun d' hd' => ?_⟩
    rw [hresult] at hd'
    obtain rfl := Option.some.inj (Except.ok.inj hd')
    rw [hvolume, active_eq his]

end Duration

/-! ## Samples -/

namespace Sample

/-- A clock that shows the first ten seconds of a year. -/
def millis (capturedAt : String) : Except String ℤ :=
  match capturedAt.toList.drop 18 with
  | [digit, 'Z'] => .ok (1767225600000 + 1000 * (digit.toNat - 48))
  | _ => .error "premature end of input"

def node (connection : String) (kind : CaptureKind) (callId : Option UInt64)
    (capturedAt : String) : CanonicalEvent where
  nodeId := connection ++ ":1"
  capturedAt := capturedAt
  event := { method := "session/prompt", callId := callId, kind := kind }

def request : CanonicalEvent := node "c" .request (some 1) "2026-01-01T00:00:00Z"

def response : CanonicalEvent := node "c" .response (some 1) "2026-01-01T00:00:05Z"

/-- A notification names no call. -/
def notification : CanonicalEvent := node "c" .notification none "2026-01-01T00:00:00Z"

/-- Calls of two connections: one within the first, one of the other connection
that lasts longer, and one after them. -/
def interleaved : List CanonicalEvent :=
  [request,
    node "d" .request (some 1) "2026-01-01T00:00:02Z",
    node "c" .request (some 2) "2026-01-01T00:00:03Z",
    node "c" .response (some 2) "2026-01-01T00:00:04Z",
    response,
    node "d" .response (some 1) "2026-01-01T00:00:06Z",
    node "c" .request (some 3) "2026-01-01T00:00:07Z",
    node "c" .response (some 3) "2026-01-01T00:00:09Z"]

def time (node : CanonicalEvent) : ℤ := (millis node.capturedAt).toOption.getD 0

theorem calls_sample (key : Key) : calls time key [request, response, notification] =
    if keyOf request = some key then [(.request, 1767225600000), (.response, 1767225605000)]
    else [] := by
  have hnotification : keyOf notification ≠ some key := by simp [keyOf, notification, node]
  split
  · next h =>
    rw [calls_self h, calls_self (show keyOf response = some key from h), calls_of_ne hnotification]
    have hrequest : time request = 1767225600000 := by decide +kernel
    have hresponse : time response = 1767225605000 := by decide +kernel
    rfl
  · next h => rw [calls_of_ne h, calls_of_ne (show keyOf response ≠ some key from h),
      calls_of_ne hnotification]; rfl

end Sample

/-- Six seconds and two. -/
theorem promptActiveMs_sample :
    promptActiveMs Sample.millis Sample.interleaved = .ok (some 8000)
      ∧ ((8000 : ℕ) : ENNReal) = volume (active Sample.time Sample.interleaved) :=
  ⟨by decide +kernel, (@promptActiveMs_iff Sample.millis Sample.time Sample.interleaved
    (by decide +kernel) (by decide +kernel) (by decide +kernel)).2 8000 (by decide +kernel)⟩

/-- An event of a prompt that names no call leaves the duration unknown,
whatever the calls of the others. -/
theorem unnamed_unknown :
    let events := [Sample.request, Sample.response, Sample.notification]
    promptActiveMs Sample.millis events = .ok none ∧
      (∃ key p, p ∈ pairs none (calls Sample.time key events)) ∧
      ∀ key, Closes none (calls Sample.time key events) := by
  refine ⟨by decide +kernel, ⟨("c", 1), (1767225600000, 1767225605000), ?_⟩, fun key => ?_⟩
  · rw [Sample.calls_sample, if_pos (by decide +kernel)]
    decide
  · rw [Sample.calls_sample]
    split
    · exact ⟨by norm_num, trivial⟩
    · trivial

end BitRouter.PromptActive
