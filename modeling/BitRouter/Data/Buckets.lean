import Mathlib.Algebra.Order.Group.Nat
import Mathlib.Data.Finset.Card
import Mathlib.Order.Interval.Finset.Nat
import Mathlib.Tactic.Common

/-!
# Counts in a rolling window

Events are counted in buckets, one for each tick, in the order of the ticks. A
bucket is dropped once the clock is a whole width past it, and an event that
arrives late is counted in the last bucket, never before it. So a bucket is never
older than the events in it, and what was counted from a tick on
(`Buckets.since`) survives for as long as the clock is within the width of that
tick.
-/

namespace BitRouter.Buckets

/-- The buckets the clock is not yet past. -/
def expire (width tick : ℕ) (xs : List (ℕ × ℕ)) : List (ℕ × ℕ) :=
  xs.dropWhile fun b => width ≤ tick - b.1

def bump (cap tick : ℕ) : List (ℕ × ℕ) → List (ℕ × ℕ)
  | [] => [(tick, 1)]
  | [b] => if b.1 = tick then [(b.1, min (b.2 + 1) cap)] else [b, (tick, 1)]
  | b :: xs => b :: bump cap tick xs

/-- The tick at which an event is counted: never before the last bucket. -/
def stamp (tick : ℕ) (xs : List (ℕ × ℕ)) : ℕ :=
  xs.getLast?.elim tick fun last => max tick last.1

/-- **Count an event.** -/
def record (width cap tick : ℕ) (xs : List (ℕ × ℕ)) : List (ℕ × ℕ) :=
  bump cap (stamp tick xs) (expire width (stamp tick xs) xs)

/-- What has been counted. -/
def total : List (ℕ × ℕ) → ℕ
  | [] => 0
  | b :: xs => b.2 + total xs

/-- What has been counted from a tick on. -/
def since (tick : ℕ) (xs : List (ℕ × ℕ)) : ℕ := total (xs.filter fun b => tick ≤ b.1)

attribute [local grind =] expire bump stamp record total since

variable {width cap tick from' : ℕ} {xs : List (ℕ × ℕ)} {b : ℕ × ℕ}

/-! ## Counts -/

theorem total_cons : total (b :: xs) = b.2 + total xs := rfl

theorem since_cons :
    since from' (b :: xs) = (if from' ≤ b.1 then b.2 else 0) + since from' xs := by
  rw [since, List.filter_cons]
  by_cases h : from' ≤ b.1
  · rw [if_pos (decide_eq_true h), if_pos h, total_cons, since]
  · rw [if_neg (by simpa using h), if_neg h, Nat.zero_add, since]

theorem since_le_total (from' : ℕ) (xs : List (ℕ × ℕ)) : since from' xs ≤ total xs := by
  induction xs with
  | nil => exact le_rfl
  | cons b xs ih =>
    rw [since_cons, total_cons]
    split
    · exact Nat.add_le_add_left ih _
    · omega

theorem expire_cons : expire width tick (b :: xs) =
    if width ≤ tick - b.1 then expire width tick xs else b :: xs := by
  rw [expire, List.dropWhile_cons]
  simp only [decide_eq_true_eq]
  rfl

theorem expire_sublist : (expire width tick xs).Sublist xs := List.dropWhile_sublist _

theorem total_expire_le : total (expire width tick xs) ≤ total xs := by
  induction xs with
  | nil => exact le_rfl
  | cons b xs ih =>
    rw [expire_cons]
    split
    · exact ih.trans (Nat.le_add_left _ _)
    · exact le_rfl

/-- **Expiry forgets nothing of the window.** -/
theorem since_expire (hwidth : 0 < width) (h : tick < from' + width) :
    since from' (expire width tick xs) = since from' xs := by
  induction xs with
  | nil => rfl
  | cons b xs ih =>
    rw [expire_cons]
    split
    · next hold =>
      have hpast : ¬ from' ≤ b.1 := by omega
      rw [ih, since_cons, if_neg hpast, Nat.zero_add]
    · rfl

theorem le_stamp : tick ≤ stamp tick xs := by
  unfold stamp
  cases xs.getLast? with
  | none => exact le_rfl
  | some last => exact le_max_left _ _

theorem stamp_le {bound : ℕ} (htick : tick ≤ bound) (hxs : ∀ b ∈ xs, b.1 ≤ bound) :
    stamp tick xs ≤ bound := by
  unfold stamp
  cases hlast : xs.getLast? with
  | none => exact htick
  | some last => exact max_le htick (hxs last (List.mem_of_getLast? hlast))

theorem total_bump_le : total (bump cap tick xs) ≤ total xs + 1 := by
  induction xs with
  | nil => exact le_rfl
  | cons b xs ih =>
    cases xs with
    | nil =>
      rw [bump]
      split
      · show min (b.2 + 1) cap + 0 ≤ b.2 + 0 + 1
        omega
      · exact le_rfl
    | cons c xs =>
      show total (b :: bump cap tick (c :: xs)) ≤ _
      exact Nat.add_le_add_left ih _

theorem total_record_le : total (record width cap tick xs) ≤ total xs + 1 :=
  total_bump_le.trans (Nat.add_le_add_right total_expire_le 1)

theorem since_bump (hcap : total xs < cap) :
    since from' (bump cap tick xs) = since from' xs + if from' ≤ tick then 1 else 0 := by
  induction xs with
  | nil => rw [bump, since_cons, Nat.add_comm]
  | cons b xs ih =>
    rw [total_cons] at hcap
    cases xs with
    | nil =>
      rw [bump]
      have hmin : min (b.2 + 1) cap = b.2 + 1 := min_eq_left (by omega)
      split
      · next htick =>
        rw [since_cons, since_cons, hmin, ← htick]
        split
        · omega
        · rfl
      · rw [since_cons, since_cons, since_cons]
        dsimp only
        omega
    | cons c xs =>
      show since from' (b :: bump cap tick (c :: xs)) = _
      rw [since_cons, since_cons, ih (by omega), Nat.add_assoc]

theorem since_record (hwidth : 0 < width) (hcap : total xs < cap)
    (hwithin : stamp tick xs < from' + width) :
    since from' xs + (if from' ≤ tick then 1 else 0) ≤ since from' (record width cap tick xs) := by
  rw [record, since_bump (total_expire_le.trans_lt hcap), since_expire hwidth hwithin]
  refine Nat.add_le_add_left ?_ _
  split
  · next h => rw [if_pos (h.trans le_stamp)]
  · exact Nat.zero_le _

/-! ## Size -/

/-- Buckets in order, none a width from another. -/
structure Ordered (width : ℕ) (xs : List (ℕ × ℕ)) : Prop where
  sorted : xs.Pairwise (·.1 < ·.1)
  spread : ∀ a ∈ xs, ∀ b ∈ xs, a.1 < b.1 + width

theorem ordered_nil : Ordered width [] :=
  ⟨List.Pairwise.nil, fun _ h => absurd h List.not_mem_nil⟩

/-- **There are no more buckets than the width.** -/
theorem Ordered.length_le (h : Ordered width xs) : xs.length ≤ width := by
  rcases xs with _ | ⟨b, xs⟩
  · exact Nat.zero_le _
  · have hnodup : ((b :: xs).map Prod.fst).Nodup :=
      List.pairwise_map.mpr (h.sorted.imp fun hlt => hlt.ne)
    have hrange : ((b :: xs).map Prod.fst).toFinset ⊆ Finset.Ico b.1 (b.1 + width) := by
      intro t ht
      obtain ⟨a, ha, rfl⟩ := List.mem_map.mp (List.mem_toFinset.mp ht)
      refine Finset.mem_Ico.mpr ⟨?_, h.spread a ha b List.mem_cons_self⟩
      rcases List.mem_cons.mp ha with rfl | ha
      · exact le_rfl
      · exact ((List.pairwise_cons.mp h.sorted).1 a ha).le
    calc (b :: xs).length = ((b :: xs).map Prod.fst).length := (List.length_map Prod.fst).symm
      _ = ((b :: xs).map Prod.fst).toFinset.card := (List.toFinset_card_of_nodup hnodup).symm
      _ ≤ (Finset.Ico b.1 (b.1 + width)).card := Finset.card_le_card hrange
      _ = width := by rw [Nat.card_Ico, Nat.add_sub_cancel_left]

theorem Ordered.expire (h : Ordered width xs) : Ordered width (expire width tick xs) :=
  ⟨h.sorted.sublist expire_sublist, fun a ha b hb =>
    h.spread a (expire_sublist.subset ha) b (expire_sublist.subset hb)⟩

theorem mem_bump (h : b ∈ bump cap tick xs) : b.1 = tick ∨ ∃ a ∈ xs, a.1 = b.1 := by
  induction xs with
  | nil =>
    obtain rfl := List.mem_singleton.mp h
    exact .inl rfl
  | cons c xs ih =>
    cases xs with
    | nil =>
      rw [bump] at h
      split at h
      · obtain rfl := List.mem_singleton.mp h
        exact .inr ⟨c, List.mem_cons_self, rfl⟩
      · rcases List.mem_cons.mp h with rfl | h
        · exact .inr ⟨b, List.mem_cons_self, rfl⟩
        · obtain rfl := List.mem_singleton.mp h
          exact .inl rfl
    | cons d xs =>
      rcases List.mem_cons.mp h with rfl | h
      · exact .inr ⟨b, List.mem_cons_self, rfl⟩
      · rcases ih h with htick | ⟨a, ha, hab⟩
        · exact .inl htick
        · exact .inr ⟨a, List.mem_cons_of_mem _ ha, hab⟩

theorem sorted_bump (hsorted : xs.Pairwise (·.1 < ·.1)) (hlast : ∀ b ∈ xs, b.1 ≤ tick) :
    (bump cap tick xs).Pairwise (·.1 < ·.1) := by
  induction xs with
  | nil => exact List.pairwise_singleton _ _
  | cons b xs ih =>
    cases xs with
    | nil =>
      rw [bump]
      split
      · exact List.pairwise_singleton _ _
      · next hne =>
        exact List.pairwise_pair.mpr (lt_of_le_of_ne (hlast b List.mem_cons_self) hne)
    | cons c xs =>
      obtain ⟨hb, hrest⟩ := List.pairwise_cons.mp hsorted
      refine List.pairwise_cons.mpr
        ⟨fun a ha => ?_, ih hrest fun a ha => hlast a (List.mem_cons_of_mem _ ha)⟩
      rcases mem_bump ha with htick | ⟨d, hd, hda⟩
      · rw [htick]
        exact (hb c List.mem_cons_self).trans_le (hlast c (by simp))
      · exact hda ▸ hb d hd

theorem lt_of_mem_expire (hsorted : xs.Pairwise (·.1 < ·.1)) (h : b ∈ expire width tick xs) :
    tick < b.1 + width := by
  induction xs with
  | nil => exact absurd h List.not_mem_nil
  | cons c xs ih =>
    obtain ⟨hc, hrest⟩ := List.pairwise_cons.mp hsorted
    rw [expire_cons] at h
    split at h
    · exact ih hrest h
    · rcases List.mem_cons.mp h with rfl | h
      · omega
      · have := hc b h
        omega

theorem le_stamp_of_mem (hsorted : xs.Pairwise (·.1 < ·.1)) (h : b ∈ xs) : b.1 ≤ stamp tick xs := by
  obtain ⟨ys, c, rfl⟩ : ∃ ys c, xs = ys ++ [c] :=
    ⟨xs.dropLast, xs.getLast (List.ne_nil_of_mem h), (List.dropLast_append_getLast _).symm⟩
  have hle : b.1 ≤ c.1 := by
    rcases List.mem_append.mp h with hy | hc
    · exact ((List.pairwise_append.mp hsorted).2.2 b hy c (List.mem_singleton_self c)).le
    · rw [List.mem_singleton.mp hc]
  rw [stamp, List.getLast?_concat]
  exact hle.trans (le_max_right _ _)

theorem Ordered.record (h : Ordered width xs) (hwidth : 0 < width) :
    Ordered width (record width cap tick xs) := by
  have hlast : ∀ b ∈ Buckets.expire width (stamp tick xs) xs, b.1 ≤ stamp tick xs :=
    fun b hb => le_stamp_of_mem h.sorted (expire_sublist.subset hb)
  have hbounds : ∀ b ∈ Buckets.record width cap tick xs,
      b.1 ≤ stamp tick xs ∧ stamp tick xs < b.1 + width := by
    intro b hb
    rcases mem_bump hb with htick | ⟨a, ha, hab⟩
    · rw [htick]
      exact ⟨le_rfl, Nat.lt_add_of_pos_right hwidth⟩
    · rw [← hab]
      exact ⟨hlast a ha, lt_of_mem_expire h.sorted ha⟩
  refine ⟨sorted_bump (h.sorted.sublist expire_sublist) hlast, fun a ha b hb => ?_⟩
  exact (hbounds a ha).1.trans_lt (hbounds b hb).2

theorem le_of_mem_record {bound : ℕ} (htick : tick ≤ bound) (hxs : ∀ b ∈ xs, b.1 ≤ bound)
    (h : b ∈ record width cap tick xs) : b.1 ≤ bound := by
  rcases mem_bump h with hstamp | ⟨a, ha, hab⟩
  · rw [hstamp]
    exact stamp_le htick hxs
  · rw [← hab]
    exact hxs a (expire_sublist.subset ha)

end BitRouter.Buckets
