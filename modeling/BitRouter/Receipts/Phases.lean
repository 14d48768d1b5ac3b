import BitRouter.Receipts.Facts

/-!
# The phases of an attempt

An attempt is to move from armed to an outcome, and from a definite outcome
to unknown, and never back. One report breaks this: the status of a rejected
response, reported to an attempt that is unknown already and whose headers
had not been seen, makes it failed. A run is settling (`Settling`) exactly
where it has no such report (`settling_iff`).
-/

namespace BitRouter.Receipts

open Tenancy

/-- **How the phase of an armed attempt may move.** -/
def Phase.mayBecome (a b : Phase) : Prop :=
  a = b ∨ (a = .armed ∧ b ≠ .reserved) ∨ ((a = .completed ∨ a = .failed) ∧ b = .unknown)

instance (a b : Phase) : Decidable (a.mayBecome b) := inferInstanceAs (Decidable (_ ∨ _))

namespace Phase

variable {a b c : Phase}

theorem mayBecome_refl (a : Phase) : a.mayBecome a := Or.inl rfl

theorem mayBecome.ne_reserved (h : a.mayBecome b) (ha : a ≠ .reserved) : b ≠ .reserved := by
  rcases h with rfl | ⟨-, hb⟩ | ⟨-, rfl⟩
  · exact ha
  · exact hb
  · simp

theorem mayBecome.trans (hab : a.mayBecome b) (hbc : b.mayBecome c) (ha : a ≠ .reserved) :
    a.mayBecome c := by
  rcases hab with rfl | ⟨rfl, hb⟩ | ⟨ha', rfl⟩
  · exact hbc
  · exact Or.inr (Or.inl ⟨rfl, hbc.ne_reserved hb⟩)
  · rcases hbc with rfl | ⟨hfalse, -⟩ | ⟨hfalse, -⟩
    · exact Or.inr (Or.inr ⟨ha', rfl⟩)
    · simp at hfalse
    · simp at hfalse

theorem mayBecome.unknown (h : mayBecome .unknown b) : b = .unknown := by
  rcases h with rfl | ⟨h, -⟩ | ⟨h, -⟩
  · rfl
  · simp at h
  · simp at h

theorem mayBecome_unknown (ha : a ≠ .reserved) : a.mayBecome .unknown := by
  cases a with
  | reserved => exact absurd rfl ha
  | armed => exact Or.inr (Or.inl ⟨rfl, by simp⟩)
  | completed => exact Or.inr (Or.inr ⟨Or.inl rfl, rfl⟩)
  | failed => exact Or.inr (Or.inr ⟨Or.inr rfl, rfl⟩)
  | unknown => exact Or.inl rfl

end Phase

/-! ## The reports of a run -/

namespace Event

/-- **A report that conflicts** with what an attempt has on record, or that
comes out of order: the operation answers so. -/
def contradicts (w : World) (e : Event) (id : AttemptId) : Prop :=
  ∃ p entry, e.permit = some p ∧ p ∈ w.permits ∧ w.journal.slots p.index = some entry
    ∧ entry.id = id ∧ e.answer w.journal = .error .conflict

/-- **The first status of an attempt, a rejection, reported after the attempt
has become unknown.** -/
def lateRejection (w : World) : Event → Bool
  | httpStatus p status =>
    decide (p ∈ w.permits ∧ 300 ≤ status ∧ status ≤ 599)
      && (w.journal.slots p.index).any (fun e => e.phase = .unknown && e.status.isNone)
  | _ => false

end Event

variable {events : List Event}

namespace World

/-- No operation of a run is a late rejection. -/
def orderly (w : World) : List Event → Bool
  | [] => true
  | e :: events => !e.lateRejection w && (w.step e).orderly events

theorem orderly_append (w : World) (a b : List Event) :
    w.orderly (a ++ b) = (w.orderly a && (w.run a).orderly b) := by
  induction a generalizing w with
  | nil => rfl
  | cons e a ih =>
    rw [List.cons_append, orderly, orderly, ih, run_cons, Bool.and_assoc]

theorem exists_lateRejection {w : World} (h : w.orderly events = false) :
    ∃ before e after, events = before ++ e :: after ∧ e.lateRejection (w.run before) = true := by
  induction events generalizing w with
  | nil => simp [orderly] at h
  | cons e events ih =>
    cases hlate : e.lateRejection w with
    | true => exact ⟨[], e, events, rfl, hlate⟩
    | false =>
      rw [orderly, hlate, Bool.not_false, Bool.true_and] at h
      obtain ⟨before, e', after, rfl, hlate'⟩ := ih h
      exact ⟨e :: before, e', after, rfl, hlate'⟩

end World

/-! ## What a step does to a phase -/

variable {e : Entry}

theorem recordStatus_mayBecome (he : e.Ok) (hphase : e.phase ≠ .reserved) {status : ℕ}
    (hnot : ¬ (300 ≤ status ∧ e.phase = .unknown ∧ e.status = none)) :
    e.phase.mayBecome (Journal.recordStatus status e).2.phase := by
  unfold Journal.recordStatus
  cases hstatus : e.status with
  | some previous =>
    dsimp only
    split
    · exact Phase.mayBecome_refl _
    · exact Phase.mayBecome_unknown hphase
  | none =>
    dsimp only
    split
    · rename_i hrejection
      -- without a status, an entry is armed or unknown
      cases hcase : e.phase with
      | reserved => exact absurd hcase hphase
      | armed => exact Or.inr (Or.inl ⟨rfl, by simp⟩)
      | completed => simpa [hstatus] using he.status (Or.inl hcase)
      | failed => simpa [hstatus] using he.status (Or.inr hcase)
      | unknown => exact absurd ⟨hrejection, hcase, hstatus⟩ hnot
    · exact Phase.mayBecome_refl _

theorem recordCompletion_mayBecome (hphase : e.phase ≠ .reserved) (successful : Bool) :
    e.phase.mayBecome (Journal.recordCompletion successful e).2.phase := by
  unfold Journal.recordCompletion
  split
  · exact Phase.mayBecome_refl _
  · split
    · exact Phase.mayBecome_unknown hphase
    · rename_i hguard
      rw [not_or, not_not] at hguard
      refine Or.inr (Or.inl ⟨hguard.1, ?_⟩)
      cases successful <;> simp [Journal.terminalPhase]

variable {w : World}

variable {event : Event}

/-- **A step moves the phase of an armed attempt as it may**, unless it is a
late rejection. -/
theorem Sound.moves_step (h : Sound w) (hnot : event.lateRejection w = false) {i : Slot}
    (he : w.journal.slots i = some e) (hphase : e.phase ≠ .reserved) :
    ∃ e', (w.step event).journal.slots i = some e' ∧ e'.id = e.id
      ∧ e.phase.mayBecome e'.phase := by
  have hstep := stepped w event
  generalize w.step event = w' at hstep
  cases hstep with
  | idle => exact ⟨e, he, rfl, Phase.mayBecome_refl _⟩
  | reserved stamp id index opened owned fresh free =>
    have hne : i ≠ index := by
      rintro rfl
      rw [free] at he
      simp at he
    exact ⟨e, (Journal.setSlot_slots_of_ne _ _ hne).trans he, rfl, Phase.mayBecome_refl _⟩
  | armed p authenticated entry held opened room found isReserved done =>
    have hne : i ≠ p.index := by
      rintro rfl
      obtain rfl := Option.some.inj (found.symm.trans he)
      exact hphase isReserved
    exact ⟨e, (Journal.setSlot_slots_of_ne _ _ hne).trans he, rfl, Phase.mayBecome_refl _⟩
  | edited event p entry entry' isPermit held found isArmed isLive edit =>
    by_cases hi : i = p.index
    · subst hi
      obtain rfl := Option.some.inj (found.symm.trans he)
      refine ⟨entry', Journal.setSlot_slots_self _ _ _, edit.kept.id, ?_⟩
      cases edit with
      | status p' status entry range =>
        refine recordStatus_mayBecome (h.entry _ _ he) hphase ?_
        rintro ⟨hrejection, hunknown, hstatus⟩
        obtain rfl := Option.some.inj isPermit
        simp [Event.lateRejection, held, hrejection, range.2, he, hunknown, hstatus] at hnot
      | usage => exact Phase.mayBecome_refl _
      | incomplete => exact Phase.mayBecome_refl _
      | completion p' successful entry => exact recordCompletion_mayBecome hphase successful
    · exact ⟨e, (Journal.setSlot_slots_of_ne _ _ hi).trans he, rfl, Phase.mayBecome_refl _⟩
  | dropped p held =>
    by_cases hi : i = p.index
    · subst hi
      cases hdrop : Journal.dropEntry e with
      | none =>
        rw [Journal.dropEntry, if_neg hphase] at hdrop
        split at hdrop <;> simp at hdrop
      | some e' =>
        obtain ⟨-, hid, -, -, -, hcases⟩ := dropEntry_cases hdrop
        refine ⟨e', ?_, hid, ?_⟩
        · rw [Journal.setSlot_slots_self, he, Option.bind_some, hdrop]
        · rcases hcases with ⟨-, hunknown, -⟩ | ⟨-, hsame, -⟩
          · rw [hunknown]
            exact Phase.mayBecome_unknown hphase
          · rw [hsame]
            exact Phase.mayBecome_refl _
    · exact ⟨e, (Journal.setSlot_slots_of_ne _ _ hi).trans he, rfl, Phase.mayBecome_refl _⟩
  | retained => exact ⟨e, he, rfl, Phase.mayBecome_refl _⟩
  | noted => exact ⟨e, he, rfl, Phase.mayBecome_refl _⟩
  | froze => exact ⟨e, he, rfl, Phase.mayBecome_refl _⟩

/-- **An orderly run moves the phase of an armed attempt as it may.** -/
theorem Sound.moves_run (h : Sound w) (horderly : w.orderly events = true) {i : Slot}
    (he : w.journal.slots i = some e) (hphase : e.phase ≠ .reserved) :
    ∃ e', (w.run events).journal.slots i = some e' ∧ e'.id = e.id
      ∧ e.phase.mayBecome e'.phase := by
  induction events generalizing w e with
  | nil => exact ⟨e, he, rfl, Phase.mayBecome_refl _⟩
  | cons event events ih =>
    rw [World.orderly, Bool.and_eq_true_iff, Bool.not_eq_true'] at horderly
    obtain ⟨e₁, he₁, hid₁, hmove₁⟩ := h.moves_step horderly.1 he hphase
    obtain ⟨e₂, he₂, hid₂, hmove₂⟩ :=
      ih (h.step event) horderly.2 he₁ (hmove₁.ne_reserved hphase)
    exact ⟨e₂, he₂, hid₂.trans hid₁, hmove₁.trans hmove₂ hphase⟩

/-! ## Contradicted attempts -/

theorem edit_eq_conflict {j : Journal} {index : Slot} {f : Entry → Except Error Unit × Entry}
    (h : (j.edit index f).1 = .error .conflict) :
    ∃ entry, j.slots index = some entry ∧ (f entry).1 = .error .conflict
      ∧ (j.edit index f).2 = j.setSlot index (some (f entry).2) := by
  unfold Journal.edit at h ⊢
  split at h
  · simp at h
  · rename_i entry hentry
    split at h
    · simp at h
    · rename_i hguard
      rw [hentry, if_neg hguard]
      exact ⟨entry, rfl, h, rfl⟩

theorem recordStatus_eq_conflict {status : ℕ}
    (h : (Journal.recordStatus status e).1 = .error .conflict) :
    (Journal.recordStatus status e).2.phase = .unknown := by
  unfold Journal.recordStatus at h ⊢
  split at h
  · split at h
    · simp at h
    · rename_i hne
      rw [if_neg hne]
      rfl
  · simp at h

theorem recordCompletion_eq_conflict {successful : Bool}
    (h : (Journal.recordCompletion successful e).1 = .error .conflict) :
    (Journal.recordCompletion successful e).2.phase = .unknown := by
  unfold Journal.recordCompletion at h ⊢
  split at h
  · simp at h
  · split at h
    · rename_i hne hguard
      rw [if_neg hne, if_pos hguard]
      rfl
    · simp at h

/-- **A contradicted attempt is unknown.** -/
theorem contradicts_step {id : AttemptId} (h : event.contradicts w id) :
    ∃ i e, (w.step event).journal.slots i = some e ∧ e.id = id ∧ e.phase = .unknown := by
  obtain ⟨p, entry, hpermit, hp, hentry, rfl, hanswer⟩ := h
  -- the reports that can conflict are edits, each of an entry it leaves unknown
  have hedit : ∀ f, (w.journal.edit p.index f).1 = .error .conflict →
      ((f entry).1 = .error .conflict → (f entry).2.phase = .unknown) →
      (f entry).2.id = entry.id → (w.step event).journal = (w.journal.edit p.index f).2 →
      ∃ i e, (w.step event).journal.slots i = some e ∧ e.id = entry.id
        ∧ e.phase = .unknown := by
    intro f hf hphase hid hstep
    obtain ⟨x, hx, hconflict, hdone⟩ := edit_eq_conflict hf
    obtain rfl := Option.some.inj (hentry.symm.trans hx)
    refine ⟨p.index, (f entry).2, ?_, hid, hphase hconflict⟩
    rw [hstep, hdone, Journal.setSlot_slots_self]
  cases event with
  | httpStatus p' status =>
    obtain rfl := Option.some.inj hpermit
    by_cases hrange : 200 ≤ status ∧ status ≤ 599
    · simp only [Event.answer, Journal.httpStatus, if_pos hrange] at hanswer
      refine hedit _ hanswer recordStatus_eq_conflict (recordStatus_kept status entry).id ?_
      simp [World.step, Event.enabled, Event.permit, hp, Event.apply, Journal.httpStatus, hrange]
    · simp [Event.answer, Journal.httpStatus, if_neg hrange] at hanswer
  | validatedCompletion p' successful =>
    obtain rfl := Option.some.inj hpermit
    refine hedit _ hanswer recordCompletion_eq_conflict
      (recordCompletion_kept successful entry).id ?_
    simp [World.step, Event.enabled, Event.permit, hp, Event.apply, Journal.validatedCompletion]
  | observeUsage | incompleteUsage =>
    obtain ⟨x, -, hfalse, -⟩ := edit_eq_conflict hanswer
    simp at hfalse
  | retainFrame p' protocol source original =>
    simp only [Event.answer, Journal.retainFrame] at hanswer
    split at hanswer <;> simp at hanswer
  | reserve => simp [Event.answer] at hanswer
  | arm => simp [Event.answer] at hanswer
  | drop => simp [Event.answer] at hanswer
  | observeEstimator => simp [Event.answer] at hanswer
  | linkChild => simp [Event.answer] at hanswer
  | linkParent => simp [Event.answer] at hanswer
  | freeze => simp [Event.answer] at hanswer

structure Journal.Unknown (j : Journal) (id : AttemptId) : Prop where
  freeze : ∀ f, j.freeze.1 = .ok f →
    (∃ a ∈ f.attempts, a.attemptId = id) ∧ ∀ a ∈ f.attempts, a.attemptId = id → a.outcome = .unknown
  fallback : ∀ s, j.fallbackEvidence = .ok s →
    ∃ settled, s = some settled ∧ settled.outcome = .unknown

theorem Sound.unknown (h : Sound w) {i : Slot} {e : Entry} (he : w.journal.slots i = some e)
    (hphase : e.phase = .unknown) : w.journal.Unknown e.id := by
  have hmem : e ∈ w.journal.entries := Journal.mem_entries.mpr ⟨i, he⟩
  refine ⟨fun f hf => ?_, fun s hs => Journal.fallbackEvidence_unknown hmem hphase hs⟩
  obtain ⟨-, -, rfl⟩ := Journal.freeze_eq_ok hf
  refine ⟨⟨e.attempt, List.mem_map_of_mem ((List.mem_insertionSort _).mpr hmem), rfl⟩, ?_⟩
  intro a ha hid
  obtain ⟨x, hx, rfl⟩ := List.mem_map.mp ha
  obtain ⟨i', hx⟩ := Journal.mem_entries.mp ((List.mem_insertionSort _).mp hx)
  obtain rfl := h.ids i' i x e hx he hid
  obtain rfl := Option.some.inj (he.symm.trans hx)
  rw [Entry.attempt, hphase]
  rfl

/-! ## Settling runs -/

/-- **The phases of a run settle**: between any two of its moments an armed
attempt moves as it may, and a contradicted one is unknown from then on. -/
structure Settling (owner : Owner) (events : List Event) : Prop where
  moves : ∀ before middle after, events = before ++ middle ++ after → ∀ i e,
    ((World.start owner).run before).journal.slots i = some e → e.phase ≠ .reserved →
    ∃ e', ((World.start owner).run (before ++ middle)).journal.slots i = some e' ∧ e'.id = e.id
      ∧ e.phase.mayBecome e'.phase
  latched : ∀ before event middle after, events = before ++ event :: middle ++ after → ∀ id,
    event.contradicts ((World.start owner).run before) id →
    ((World.start owner).run (before ++ event :: middle)).journal.Unknown id

/-- **A late rejection makes an unknown attempt a failed one.** -/
theorem Sound.lateRejection_step (h : Sound w) (hlate : event.lateRejection w = true) :
    ∃ i e e', w.journal.slots i = some e ∧ e.phase = .unknown
      ∧ (w.step event).journal.slots i = some e' ∧ e'.phase = .failed := by
  cases event with
  | httpStatus p status =>
    simp only [Event.lateRejection, Bool.and_eq_true, decide_eq_true_eq,
      Option.any_eq_true] at hlate
    obtain ⟨⟨hp, hrejection, hrange⟩, e, he, hphase, hstatus⟩ := hlate
    have hnone : e.status = none := by simpa using hstatus
    obtain ⟨x, hx, hlive, -⟩ := h.held p hp
    obtain rfl := Option.some.inj (he.symm.trans hx)
    have hguard : ¬ (e.phase = .reserved ∨ e.live = false) := by simp [hphase, hlive]
    have hedit : (w.step (.httpStatus p status)).journal
        = w.journal.setSlot p.index (some (Journal.recordStatus status e).2) := by
      have hok : 200 ≤ status ∧ status ≤ 599 := ⟨by omega, hrange⟩
      simp only [World.step, Event.enabled, Event.permit, Option.all_some, hp, decide_true,
        Bool.and_self, if_true, Event.apply, Journal.httpStatus, if_pos hok, Journal.edit, he,
        if_neg hguard]
    refine ⟨p.index, e, _, he, hphase, by rw [hedit, Journal.setSlot_slots_self], ?_⟩
    simp only [Journal.recordStatus, hnone, if_pos hrejection]
  | _ => simp [Event.lateRejection] at hlate

theorem orderly_of_settling {owner : Owner} (h : Settling owner events) :
    (World.start owner).orderly events = true := by
  by_contra hnot
  obtain ⟨before, event, after, rfl, hlate⟩ :=
    World.exists_lateRejection (Bool.eq_false_iff.mpr hnot)
  obtain ⟨i, e, e', he, hunknown, he', hfailed⟩ :=
    ((Sound.start owner).run before).lateRejection_step hlate
  obtain ⟨x, hx, -, hmove⟩ := h.moves before [event] after (by simp) i e he (by simp [hunknown])
  rw [World.run_append, World.run_cons] at hx
  obtain rfl := Option.some.inj (he'.symm.trans hx)
  rw [hunknown, hfailed] at hmove
  exact absurd hmove (by decide)

/-- **The phases of a run settle exactly where no rejection is reported
late.** -/
theorem settling_iff (owner : Owner) (events : List Event) :
    Settling owner events ↔ (World.start owner).orderly events = true := by
  refine ⟨orderly_of_settling, fun h => ⟨?_, ?_⟩⟩
  · rintro before middle after rfl i e he hphase
    rw [World.orderly_append, World.orderly_append, Bool.and_eq_true_iff,
      Bool.and_eq_true_iff] at h
    rw [World.run_append]
    exact ((Sound.start owner).run before).moves_run h.1.2 he hphase
  · rintro before event middle after rfl id hcontradicts
    rw [World.orderly_append, World.orderly_append, Bool.and_eq_true_iff,
      Bool.and_eq_true_iff, World.orderly, Bool.and_eq_true_iff] at h
    obtain ⟨i, e, he, rfl, hphase⟩ := contradicts_step hcontradicts
    have hsound := (Sound.start owner).run before
    obtain ⟨e', he', hid, hmove⟩ :=
      (hsound.step event).moves_run h.1.2.2 he (by simp [hphase])
    rw [hphase] at hmove
    rw [World.run_append, World.run_cons, ← hid]
    exact ((hsound.step event).run middle).unknown he' hmove.unknown

namespace Sample

/-- **A terminal before the headers**, which conflicts, and a rejection after
it. -/
def lateRejection : List Event :=
  [.reserve stamp (id "attempt"), .arm (permit 0) stamp, .validatedCompletion (permit 0) true,
    .httpStatus (permit 0) 404, .drop (permit 0)]

end Sample

/-- **A late rejection hides a contradicted attempt**: the fallback reads it
as a known rejection. -/
theorem lateRejection_not_settling :
    ((World.start Sample.owner).run Sample.lateRejection).journal.fallbackEvidence
        = .ok (some { outcome := .failed, httpStatus := some 404 })
      ∧ ¬ Settling Sample.owner Sample.lateRejection := by
  refine ⟨by rfl, fun h => ?_⟩
  exact absurd (orderly_of_settling h) (by decide +kernel)

end BitRouter.Receipts
