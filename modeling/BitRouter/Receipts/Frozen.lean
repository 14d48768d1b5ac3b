import BitRouter.Receipts.Facts

/-!
# The attempts of a frozen journal

Whatever the order of the operations, a freeze that succeeds answers the
attempts whose permits were armed – each of them once, in the order of the
arm calls – and every later freeze answers the same (`freeze_faithful`).
`armings` is the history of the arm calls; the invariant `Logged` says that
the armed slots are numbered by it.
-/

namespace BitRouter.Receipts

open Tenancy

/-! ## The history of a run -/

namespace Event

/-- The attempt an operation arms. -/
def arms (w : World) (e : Event) : Option (AttemptId × Target) :=
  match e with
  | arm p authenticated =>
    if p ∈ w.permits then
      (w.journal.arm p authenticated).toOption.map (fun r => (r.1, p.stamp.target))
    else none
  | _ => none

/-- The attempt an operation concludes: it reports a rejection, or a terminal
that is accepted. -/
def concludes (w : World) (e : Event) : Option AttemptId :=
  match e with
  | httpStatus p status =>
    if p ∈ w.permits ∧ 300 ≤ status ∧ (e.answer w.journal).toBool = true then
      (w.journal.slots p.index).map (·.id)
    else none
  | validatedCompletion p _ =>
    if p ∈ w.permits ∧ (e.answer w.journal).toBool = true then
      (w.journal.slots p.index).map (·.id)
    else none
  | _ => none

end Event

namespace World

/-- **The arm calls of a run**, in their order: the attempt each has armed,
with the target its permit was reserved for. -/
def armings (w : World) : List Event → List (AttemptId × Target)
  | [] => []
  | e :: events => (e.arms w).toList ++ (w.step e).armings events

/-- The attempts a run has concluded. -/
def conclusions (w : World) : List Event → List AttemptId
  | [] => []
  | e :: events => (e.concludes w).toList ++ (w.step e).conclusions events

end World

/-! ## The invariant -/

/-- **The armed slots are numbered by the history.** -/
structure Logged (w : World) (log : List (AttemptId × Target)) (concluded : List AttemptId) :
    Prop where
  count : w.journal.armed = log.length
  bound : log.length ≤ slotCount
  recorded : ∀ i e, w.journal.slots i = some e → e.phase ≠ .reserved →
    log[e.order]? = some (e.id, e.target)
  present : ∀ n, n < log.length →
    ∃ i e, w.journal.slots i = some e ∧ e.phase ≠ .reserved ∧ e.order = n
  frames : ∀ frame ∈ w.journal.usageEvidence.frames, frame.attemptId ∈ log.map Prod.fst
  concluded : ∀ i e, w.journal.slots i = some e → e.phase = .completed ∨ e.phase = .failed →
    e.id ∈ concluded

namespace Logged

variable {w w' : World} {log : List (AttemptId × Target)} {concluded concluded' : List AttemptId}

theorem start (owner : Owner) : Logged (World.start owner) [] [] := by
  refine ⟨rfl, by simp, ?_, ?_, ?_, ?_⟩ <;> simp [World.start, Journal.owned]

theorem kept (h : Logged w log concluded) (hcount : w'.journal.armed = w.journal.armed)
    (hback : ∀ i e', w'.journal.slots i = some e' → e'.phase ≠ .reserved →
      ∃ e, w.journal.slots i = some e ∧ e.phase ≠ .reserved ∧ e'.id = e.id
        ∧ e'.target = e.target ∧ e'.order = e.order
        ∧ (e'.phase = .completed ∨ e'.phase = .failed →
          (e.phase = .completed ∨ e.phase = .failed) ∨ e'.id ∈ concluded'))
    (hforth : ∀ i e, w.journal.slots i = some e → e.phase ≠ .reserved →
      ∃ e', w'.journal.slots i = some e' ∧ e'.phase ≠ .reserved ∧ e'.order = e.order)
    (hframes : ∀ frame ∈ w'.journal.usageEvidence.frames, frame.attemptId ∈ log.map Prod.fst)
    (hconcluded : concluded ⊆ concluded') : Logged w' log concluded' := by
  refine ⟨hcount.trans h.count, h.bound, fun i e' he' hphase => ?_, fun n hn => ?_, hframes,
    fun i e' he' hdefinite => ?_⟩
  · obtain ⟨e, he, hphase, hid, htarget, horder, -⟩ := hback i e' he' hphase
    rw [hid, htarget, horder]
    exact h.recorded i e he hphase
  · obtain ⟨i, e, he, hphase, rfl⟩ := h.present n hn
    obtain ⟨e', he', hphase', horder⟩ := hforth i e he hphase
    exact ⟨i, e', he', hphase', horder⟩
  · have hphase : e'.phase ≠ .reserved := by
      rcases hdefinite with hdefinite | hdefinite <;> simp [hdefinite]
    obtain ⟨e, he, -, hid, -, -, hcase⟩ := hback i e' he' hphase
    rcases hcase hdefinite with hdefinite | hmem
    · rw [hid]
      exact hconcluded (h.concluded i e he hdefinite)
    · exact hmem

/-- Nothing but the slots, the count and the frames matters. -/
theorem congr (h : Logged w log concluded) (hslots : w'.journal.slots = w.journal.slots)
    (hcount : w'.journal.armed = w.journal.armed)
    (hframes : ∀ frame ∈ w'.journal.usageEvidence.frames, frame.attemptId ∈ log.map Prod.fst)
    (hconcluded : concluded ⊆ concluded') : Logged w' log concluded' := by
  refine h.kept hcount (fun i e he hphase => ?_) (fun i e he hphase => ?_) hframes hconcluded
  · rw [hslots] at he
    exact ⟨e, he, hphase, rfl, rfl, rfl, Or.inl⟩
  · exact ⟨e, by rw [hslots]; exact he, hphase, rfl⟩

theorem setSlot (h : Logged w log concluded) {index : Slot} {e e' : Entry}
    (hfound : w.journal.slots index = some e) (hphase : e.phase ≠ .reserved) (hkept : Kept e e')
    (hdefinite : e'.phase = .completed ∨ e'.phase = .failed →
      (e.phase = .completed ∨ e.phase = .failed) ∨ e'.id ∈ concluded')
    (hconcluded : concluded ⊆ concluded') {permits : List AttemptPermit} :
    Logged { journal := w.journal.setSlot index (some e'), permits } log concluded' := by
  refine h.kept rfl (fun i x hx hphase' => ?_) (fun i x hx hphase' => ?_) h.frames hconcluded
  · by_cases hi : i = index
    · subst hi
      obtain rfl := Option.some.inj ((Journal.setSlot_slots_self _ _ _).symm.trans hx)
      exact ⟨e, hfound, hphase, hkept.id, hkept.target, hkept.order, hdefinite⟩
    · exact ⟨x, (Journal.setSlot_slots_of_ne _ _ hi).symm.trans hx, hphase', rfl, rfl, rfl, Or.inl⟩
  · by_cases hi : i = index
    · subst hi
      obtain rfl := Option.some.inj (hfound.symm.trans hx)
      exact ⟨e', Journal.setSlot_slots_self _ _ _, hkept.armed hphase, hkept.order⟩
    · exact ⟨x, (Journal.setSlot_slots_of_ne _ _ hi).trans hx, hphase', rfl⟩

theorem edited_definite {event : Event} {p : AttemptPermit} {e e' : Entry}
    (hpermit : event.permit = some p) (hp : p ∈ w.permits)
    (hfound : w.journal.slots p.index = some e) (hphase : e.phase ≠ .reserved)
    (hlive : e.live = true) (hedit : Edited event e e')
    (hdefinite : e'.phase = .completed ∨ e'.phase = .failed) :
    (e.phase = .completed ∨ e.phase = .failed) ∨ event.concludes w = some e'.id := by
  have hguard : ¬ (e.phase = .reserved ∨ e.live = false) := by simp [hphase, hlive]
  cases hedit with
  | status p' status entry range =>
    obtain rfl := Option.some.inj hpermit
    by_cases hrejection : 300 ≤ status
    · refine Or.inr ?_
      have hanswer : (Event.answer (.httpStatus p' status) w.journal).toBool = true := by
        simp only [Event.answer, Journal.httpStatus, if_pos range, Journal.edit, hfound,
          if_neg hguard]
        unfold Journal.recordStatus at hdefinite ⊢
        split
        · split
          · rfl
          · rename_i previous hprevious hne
            rw [hprevious] at hdefinite
            simp [hne, Journal.conflicting] at hdefinite
        · rfl
      rw [Event.concludes, if_pos ⟨hp, hrejection, hanswer⟩, hfound, Option.map_some,
        (recordStatus_kept status e).id]
    · refine Or.inl ?_
      unfold Journal.recordStatus at hdefinite
      split at hdefinite
      · split at hdefinite
        · exact hdefinite
        · simp [Journal.conflicting] at hdefinite
      · simpa [hrejection] using hdefinite
  | usage => exact Or.inl hdefinite
  | incomplete => exact Or.inl hdefinite
  | completion p' successful entry =>
    obtain rfl := Option.some.inj hpermit
    refine Or.inr ?_
    have hanswer : (Event.answer (.validatedCompletion p' successful) w.journal).toBool = true := by
      simp only [Event.answer, Journal.validatedCompletion, Journal.edit, hfound, if_neg hguard]
      unfold Journal.recordCompletion at hdefinite ⊢
      split
      · rfl
      · rename_i hne
        rw [if_neg hne] at hdefinite
        split
        · rename_i hconflict
          rw [if_pos hconflict] at hdefinite
          simp [Journal.conflicting] at hdefinite
        · rfl
    rw [Event.concludes, if_pos ⟨hp, hanswer⟩, hfound, Option.map_some,
      (recordCompletion_kept successful e).id]

/-- Arming appends to the history. -/
theorem arm (h : Logged w log concluded) {p : AttemptPermit} {e : Entry}
    (hroom : w.journal.armed < slotCount) (hfound : w.journal.slots p.index = some e)
    (hreserved : e.phase = .reserved) {permits : List AttemptPermit} :
    Logged
      { journal := { w.journal.setSlot p.index
            (some { e with phase := .armed, order := w.journal.armed })
          with armed := w.journal.armed + 1 }
        permits } (log ++ [(e.id, e.target)]) concluded := by
  have hother : ∀ i x, i ≠ p.index → (w.journal.setSlot p.index
      (some { e with phase := .armed, order := w.journal.armed })).slots i = some x →
      w.journal.slots i = some x := fun i x hi hx =>
    (Journal.setSlot_slots_of_ne _ _ hi).symm.trans hx
  refine ⟨?_, ?_, fun i x hx hphase => ?_, fun n hn => ?_, fun frame hframe => ?_,
    fun i x hx hdefinite => ?_⟩
  · rw [List.length_append, List.length_singleton, ← h.count]
  · rw [List.length_append, List.length_singleton, ← h.count]
    exact hroom
  · by_cases hi : i = p.index
    · subst hi
      obtain rfl := Option.some.inj ((Journal.setSlot_slots_self _ _ _).symm.trans hx)
      rw [h.count, List.getElem?_append_right le_rfl, Nat.sub_self]
      rfl
    · have hlog := h.recorded i x (hother i x hi hx) hphase
      rw [List.getElem?_append_left (List.getElem?_eq_some_iff.mp hlog).1]
      exact hlog
  · rw [List.length_append, List.length_singleton] at hn
    by_cases heq : n = log.length
    · exact ⟨p.index, _, Journal.setSlot_slots_self _ _ _, by simp, h.count.trans heq.symm⟩
    · obtain ⟨i, x, hx, hphase, horder⟩ := h.present n (by omega)
      have hi : i ≠ p.index := by
        rintro rfl
        obtain rfl := Option.some.inj (hfound.symm.trans hx)
        exact hphase hreserved
      exact ⟨i, x, (Journal.setSlot_slots_of_ne _ _ hi).trans hx, hphase, horder⟩
  · rw [List.map_append]
    exact List.mem_append_left _ (h.frames frame hframe)
  · by_cases hi : i = p.index
    · subst hi
      obtain rfl := Option.some.inj ((Journal.setSlot_slots_self _ _ _).symm.trans hx)
      simp at hdefinite
    · exact h.concluded i x (hother i x hi hx) hdefinite

/-- **Every operation keeps the invariant**, the history being extended by
what it arms and concludes. -/
theorem step (hsound : Sound w) (h : Logged w log concluded) (e : Event) :
    Logged (w.step e) (log ++ (e.arms w).toList) (concluded ++ (e.concludes w).toList) := by
  have hmono : concluded ⊆ concluded ++ (e.concludes w).toList := List.subset_append_left _ _
  cases harms : e.arms w with
  | some a =>
    cases e with
    | arm p authenticated =>
      rw [Event.arms] at harms
      split at harms
      · rename_i hp
        obtain ⟨r, hr, rfl⟩ := Option.map_eq_some_iff.mp harms
        cases harm : w.journal.arm p authenticated with
        | error e =>
          rw [harm] at hr
          simp [Except.toOption] at hr
        | ok r' =>
          rw [harm] at hr
          obtain rfl : r' = r := by simpa [Except.toOption] using hr
          obtain ⟨-, hroom, entry, hentry, hreserved, rfl⟩ := arm_eq_ok harm
          obtain ⟨x, hx, -, htarget⟩ := hsound.held p hp
          obtain rfl := Option.some.inj (hentry.symm.trans hx)
          have hstep : w.step (.arm p authenticated)
              = { journal := { w.journal.setSlot p.index
                      (some { entry with phase := .armed, order := w.journal.armed })
                    with armed := w.journal.armed + 1 }
                  permits := w.permits } := by
            simp only [World.step, Event.enabled, Event.permit, Option.all_some, hp, decide_true,
              Bool.and_self, if_true, Event.apply, Event.hold, harm, Except.toOption,
              Option.map_some, Option.getD_some]
          have hconcludes : Event.concludes w (.arm p authenticated) = none := rfl
          rw [hstep, Option.toList_some, ← htarget, hconcludes, Option.toList_none,
            List.append_nil]
          exact h.arm hroom hentry hreserved
      · simp at harms
    | _ => simp [Event.arms] at harms
  | none =>
    rw [Option.toList_none, List.append_nil]
    have hstep := stepped w e
    generalize w.step e = w' at hstep
    cases hstep with
    | idle => exact h.congr rfl rfl h.frames hmono
    | reserved stamp id index opened owned fresh free =>
      refine h.kept rfl (fun i x hx hphase => ?_) (fun i x hx hphase => ?_) h.frames hmono
      · have hi : i ≠ index := by
          rintro rfl
          obtain rfl := Option.some.inj ((Journal.setSlot_slots_self _ _ _).symm.trans hx)
          exact hphase rfl
        exact ⟨x, (Journal.setSlot_slots_of_ne _ _ hi).symm.trans hx, hphase, rfl, rfl, rfl,
          Or.inl⟩
      · have hi : i ≠ index := by
          rintro rfl
          rw [free] at hx
          simp at hx
        exact ⟨x, (Journal.setSlot_slots_of_ne _ _ hi).trans hx, hphase, rfl⟩
    | armed p authenticated entry held opened room found isReserved done =>
      simp [Event.arms, held, done, Except.toOption] at harms
    | edited e p entry entry' isPermit held found isArmed isLive edit =>
      refine h.setSlot found isArmed edit.kept (fun hdefinite => ?_) hmono
      refine (edited_definite isPermit held found isArmed isLive edit hdefinite).imp_right ?_
      intro hconcludes
      rw [hconcludes]
      simp
    | dropped p held =>
      obtain ⟨entry, hentry, -⟩ := hsound.held p held
      rw [hentry, Option.bind_some]
      cases hdrop : Journal.dropEntry entry with
      | some entry' =>
        obtain ⟨hphase, hid, htarget, horder, -, hcases⟩ := dropEntry_cases hdrop
        refine h.kept rfl (fun i x hx hphase' => ?_) (fun i x hx hphase' => ?_) h.frames hmono
        · by_cases hi : i = p.index
          · subst hi
            obtain rfl := Option.some.inj ((Journal.setSlot_slots_self _ _ _).symm.trans hx)
            refine ⟨entry, hentry, hphase, hid, htarget, horder, fun hdefinite => Or.inl ?_⟩
            rcases hcases with ⟨-, hunknown, -⟩ | ⟨-, hsame, -⟩
            · simp [hunknown] at hdefinite
            · rw [← hsame]
              exact hdefinite
          · exact ⟨x, (Journal.setSlot_slots_of_ne _ _ hi).symm.trans hx, hphase', rfl, rfl, rfl,
              Or.inl⟩
        · by_cases hi : i = p.index
          · subst hi
            obtain rfl := Option.some.inj (hentry.symm.trans hx)
            refine ⟨entry', Journal.setSlot_slots_self _ _ _, ?_, horder⟩
            rcases hcases with ⟨-, hunknown, -⟩ | ⟨-, hsame, -⟩
            · simp [hunknown]
            · rw [hsame]
              exact hphase
          · exact ⟨x, (Journal.setSlot_slots_of_ne _ _ hi).trans hx, hphase', rfl⟩
      | none =>
        -- only a reserved entry leaves its slot
        have hreserved : entry.phase = .reserved := by
          by_contra hne
          rw [Journal.dropEntry, if_neg hne] at hdrop
          split at hdrop <;> simp at hdrop
        refine h.kept rfl (fun i x hx hphase' => ?_) (fun i x hx hphase' => ?_) h.frames hmono
        · have hi : i ≠ p.index := by
            rintro rfl
            simp at hx
          exact ⟨x, (Journal.setSlot_slots_of_ne _ _ hi).symm.trans hx, hphase', rfl, rfl, rfl,
            Or.inl⟩
        · have hi : i ≠ p.index := by
            rintro rfl
            obtain rfl := Option.some.inj (hentry.symm.trans hx)
            exact hphase' hreserved
          exact ⟨x, (Journal.setSlot_slots_of_ne _ _ hi).trans hx, hphase', rfl⟩
    | retained p protocol source original entry held found isArmed =>
      refine h.congr rfl rfl (fun frame hframe => ?_) hmono
      rcases Snapshot.observe_frames entry.id protocol.wire source original
        w.journal.usageEvidence with heq | heq
      · rw [heq] at hframe
        exact h.frames frame hframe
      · rw [heq, List.mem_append, List.mem_singleton] at hframe
        rcases hframe with hframe | rfl
        · exact h.frames frame hframe
        · rw [Snapshot.frameOf, attemptId_extract]
          exact List.mem_map_of_mem (f := Prod.fst)
            (List.mem_of_getElem? (h.recorded _ _ found isArmed))
    | noted e s opened isNote done frames =>
      exact h.congr rfl rfl (by rw [frames]; exact h.frames) hmono
    | froze => exact h.congr rfl rfl h.frames hmono

/-- **Every run keeps the invariant.** -/
theorem run (hsound : Sound w) (h : Logged w log concluded) (events : List Event) :
    Logged (w.run events) (log ++ w.armings events) (concluded ++ w.conclusions events) := by
  induction events generalizing w log concluded with
  | nil => simpa [World.armings, World.conclusions, World.run] using h
  | cons e events ih =>
    rw [World.armings, World.conclusions, ← List.append_assoc, ← List.append_assoc]
    exact ih (hsound.step e) (h.step hsound e)

end Logged

/-! ## The order of the attempts -/

section Order

variable {w : World} {log : List (AttemptId × Target)} {concluded : List AttemptId}

section

variable (hsound : Sound w) (h : Logged w log concluded)
  (harmed : ∀ e ∈ w.journal.entries, e.phase ≠ .reserved)

include hsound h harmed

theorem Logged.nodup_order :
    (w.journal.entries.map (·.order)).Nodup := by
  rw [Journal.entries, List.map_filterMap]
  refine List.Nodup.filterMap (fun i i' n hi hi' => ?_) (List.nodup_finRange _)
  obtain ⟨e, he, rfl⟩ := Option.map_eq_some_iff.mp hi
  obtain ⟨e', he', horder⟩ := Option.map_eq_some_iff.mp hi'
  have hlog := h.recorded i e he (harmed e (Journal.mem_entries.mpr ⟨i, he⟩))
  have hlog' := h.recorded i' e' he' (harmed e' (Journal.mem_entries.mpr ⟨i', he'⟩))
  rw [horder, hlog] at hlog'
  exact hsound.ids i i' e e' he he' (congrArg Prod.fst (Option.some.inj hlog'))

/-- **Sorted by their numbers, the armed entries are the history.** -/
theorem Logged.ordered_eq :
    w.journal.ordered.map (fun e => (e.id, e.target)) = log := by
  have hperm : w.journal.ordered.Perm w.journal.entries := List.perm_insertionSort _ _
  have hmem : ∀ n, n ∈ w.journal.entries.map (·.order) ↔ n ∈ List.range log.length := by
    intro n
    rw [List.mem_range]
    constructor
    · intro hn
      obtain ⟨e, he, rfl⟩ := List.mem_map.mp hn
      obtain ⟨i, hi⟩ := Journal.mem_entries.mp he
      exact (List.getElem?_eq_some_iff.mp (h.recorded i e hi (harmed e he))).1
    · intro hn
      obtain ⟨i, e, he, -, rfl⟩ := h.present n hn
      exact List.mem_map_of_mem (Journal.mem_entries.mpr ⟨i, he⟩)
  have hrange : w.journal.ordered.map (·.order) = List.range log.length := by
    refine List.Perm.eq_of_pairwise' (r := (· ≤ ·)) ?_ List.pairwise_le_range ?_
    · exact List.pairwise_map.mpr (List.pairwise_insertionSort _ _)
    · exact (hperm.map _).trans
        ((List.perm_ext_iff_of_nodup (h.nodup_order hsound harmed) List.nodup_range).mpr hmem)
  have hlookup : w.journal.ordered.map (fun e => some (e.id, e.target))
      = (w.journal.ordered.map (·.order)).map (fun n => log[n]?) := by
    rw [List.map_map]
    refine List.map_congr_left (fun e he => ?_)
    obtain ⟨i, hi⟩ := Journal.mem_entries.mp (hperm.mem_iff.mp he)
    exact (h.recorded i e hi (harmed e (hperm.mem_iff.mp he))).symm
  refine List.map_injective_iff.mpr (Option.some_injective _) ?_
  rw [List.map_map]
  refine hlookup.trans ?_
  rw [hrange]
  exact List.ext_getElem (by simp) (fun n hn hn' => by simp)

end

/-- The history names no attempt twice. -/
theorem Logged.nodup_log (hsound : Sound w) (h : Logged w log concluded) :
    (log.map Prod.fst).Nodup := by
  rw [List.nodup_iff_injective_getElem]
  intro a b hab
  simp only [List.getElem_map] at hab
  have ha : (a : ℕ) < log.length := by simpa using a.isLt
  have hb : (b : ℕ) < log.length := by simpa using b.isLt
  obtain ⟨i, e, he, hphase, horder⟩ := h.present a ha
  obtain ⟨i', e', he', hphase', horder'⟩ := h.present b hb
  have hlog := h.recorded i e he hphase
  have hlog' := h.recorded i' e' he' hphase'
  rw [horder, List.getElem?_eq_getElem ha] at hlog
  rw [horder', List.getElem?_eq_getElem hb] at hlog'
  have hid : e.id = e'.id := by
    rw [Option.some.inj hlog, Option.some.inj hlog'] at hab
    exact hab
  obtain rfl := hsound.ids i i' e e' he he' hid
  obtain rfl := Option.some.inj (he.symm.trans he')
  exact Fin.ext (horder.symm.trans horder')

end Order

/-! ## After the journal is closed -/

section Closed

variable {w : World}

theorem closed_step (h : w.journal.closed = true) (e : Event) :
    (w.step e).journal.closed = true := by
  have hstep := stepped w e
  generalize w.step e = w' at hstep
  cases hstep with
  | idle => exact h
  | reserved => exact h
  | armed => exact h
  | edited => exact h
  | dropped => exact h
  | retained => exact h
  | noted => exact h
  | froze => rfl

theorem closed_run (h : w.journal.closed = true) (events : List Event) :
    (w.run events).journal.closed = true := by
  induction events generalizing w with
  | nil => exact h
  | cons e events ih => exact ih (closed_step h e)

theorem closed_of_mem {events : List Event} (h : Event.freeze ∈ events) :
    (w.run events).journal.closed = true := by
  obtain ⟨before, after, rfl⟩ := List.append_of_mem h
  rw [World.run_append, World.run_cons]
  exact closed_run rfl after

/-- **A closed journal without permits does not change.** -/
theorem still_step (h : w.journal.closed = true) (hpermits : w.permits = []) (e : Event) :
    w.step e = w := by
  have hnone : ∀ p, p ∉ w.permits := by simp [hpermits]
  have hstep := stepped w e
  generalize hw : w.step e = w' at hstep
  cases hstep with
  | idle => rfl
  | reserved stamp id index opened => simp [h] at opened
  | armed p authenticated entry held => exact absurd held (hnone p)
  | edited e p entry entry' isPermit held => exact absurd held (hnone p)
  | dropped p held => exact absurd held (hnone p)
  | retained p protocol source original entry held => exact absurd held (hnone p)
  | noted e s opened => simp [h] at opened
  | froze =>
    obtain ⟨⟨owner, slots, armed, closed, usageEvidence⟩, permits⟩ := w
    obtain rfl : closed = true := h
    rfl

theorem still_run (h : w.journal.closed = true) (hpermits : w.permits = [])
    (events : List Event) : w.run events = w := by
  induction events with
  | nil => rfl
  | cons e events ih => rw [World.run_cons, still_step h hpermits, ih]

end Closed

/-! ## The facts of a run -/

/-- **What a successful freeze at the end of a run answers.** -/
structure Faithful (owner : Owner) (events : List Event) (f : Frozen) : Prop where
  /-- No permit is left. -/
  released : ((World.start owner).run events).permits = []
  /-- The attempts are those armed, in the order of the arm calls. -/
  attempts : f.attempts.map (fun a => (a.attemptId, a.target))
    = ((World.start owner).armings events).map (fun a => (a.1, some a.2))
  /-- Each of them appears once. -/
  once : (f.attempts.map (·.attemptId)).Nodup
  /-- Nothing else is of an attempt that was not armed. -/
  statuses : f.httpStatuses.length = f.attempts.length
  terminals : f.usageEvidence.terminals ⊆ f.attempts.map (·.attemptId)
  frames : f.usageEvidence.frames.map (·.attemptId) ⊆ f.attempts.map (·.attemptId)
  /-- An attempt nothing has concluded is unknown, its usage incomplete. -/
  unresolved : ∀ a ∈ f.attempts, a.attemptId ∉ (World.start owner).conclusions events →
    a.outcome = .unknown ∧ a.usage.complete = false
  dispatch : f.dispatch = ((World.start owner).run events).journal.dispatch
  /-- Whatever follows, a later freeze answers the same. -/
  stable : ∀ later f',
    ((World.start owner).run (events ++ .freeze :: later)).journal.freeze.1 = .ok f' → f' = f

theorem Sound.permits_eq_nil {w : World} (h : Sound w)
    (hlive : ∀ e ∈ w.journal.entries, e.live = false) : w.permits = [] := by
  refine List.eq_nil_iff_forall_not_mem.mpr (fun p hp => ?_)
  obtain ⟨e, he, hlive', -⟩ := h.held p hp
  rw [hlive e (Journal.mem_entries.mpr ⟨p.index, he⟩)] at hlive'
  simp at hlive'

theorem faithful_of_freeze {owner : Owner} {events : List Event} {f : Frozen}
    (h : ((World.start owner).run events).journal.freeze.1 = .ok f) : Faithful owner events f := by
  have hsound := (Sound.start owner).run events
  have hlogged := (Logged.start owner).run (Sound.start owner) events
  rw [List.nil_append, List.nil_append] at hlogged
  obtain ⟨hlive, hsettled, hf⟩ := Journal.freeze_eq_ok h
  have hpermits := hsound.permits_eq_nil hlive
  have hordered := hlogged.ordered_eq hsound (fun e he => (hsettled e he).1)
  have hmem : ∀ {e}, e ∈ ((World.start owner).run events).journal.ordered
      ↔ e ∈ ((World.start owner).run events).journal.entries := List.mem_insertionSort _
  have hids : f.attempts.map (·.attemptId) = ((World.start owner).armings events).map Prod.fst := by
    rw [← hordered, hf, List.map_map, List.map_map]
    rfl
  refine ⟨hpermits, ?_, ?_, ?_, ?_, ?_, ?_, ?_, ?_⟩
  · rw [← hordered, hf, List.map_map, List.map_map]
    rfl
  · rw [hids]
    exact hlogged.nodup_log hsound
  · rw [hf, List.length_map, List.length_map]
  · intro id hid
    rw [hf] at hid ⊢
    obtain ⟨e, he, rfl⟩ := List.mem_map.mp hid
    refine List.mem_map.mpr ⟨e.attempt, List.mem_map_of_mem (hmem.mpr ?_), rfl⟩
    exact (List.mem_filter.mp he).1
  · intro id hid
    rw [hids]
    obtain ⟨frame, hframe, rfl⟩ := List.mem_map.mp hid
    refine hlogged.frames frame ?_
    rw [hf] at hframe
    exact hframe
  · intro a ha hnot
    rw [hf] at ha
    obtain ⟨e, he, rfl⟩ := List.mem_map.mp ha
    have hentry := hmem.mp he
    obtain ⟨i, hi⟩ := Journal.mem_entries.mp hentry
    have hunknown : e.phase = .unknown := by
      cases hphase : e.phase with
      | reserved => exact absurd hphase (hsettled e hentry).1
      | armed => exact absurd hphase (hsettled e hentry).2
      | completed => exact absurd (hlogged.concluded i e hi (Or.inl hphase)) hnot
      | failed => exact absurd (hlogged.concluded i e hi (Or.inr hphase)) hnot
      | unknown => rfl
    refine ⟨?_, Evidence.complete_project ((hsound.entry i e hi).incomplete hunknown)⟩
    rw [Entry.attempt, hunknown]
    rfl
  · rw [hf]
    exact (Journal.dispatchFrom_eq hsettled _).symm
  · intro later f' hf'
    have hsame := still_run (w := ((World.start owner).run events).step .freeze) rfl hpermits later
    rw [World.run_append, World.run_cons, hsame] at hf'
    exact (Except.ok.inj (h.symm.trans hf')).symm

/-- **A frozen journal answers the attempts that were armed.** In every run
at most eight attempts are armed, each once; from the first freeze on none is
reserved or armed; and what a successful freeze answers is faithful to the
run. -/
theorem freeze_faithful (owner : Owner) (events : List Event) :
    ((World.start owner).armings events).length ≤ 8
      ∧ (.freeze ∈ events →
        (∀ stamp id r,
          ((World.start owner).run events).journal.reserveIdentity stamp id ≠ .ok r)
        ∧ ∀ p authenticated r,
          ((World.start owner).run events).journal.arm p authenticated ≠ .ok r)
      ∧ ∀ f, ((World.start owner).run events).journal.freeze.1 = .ok f →
        Faithful owner events f := by
  refine ⟨?_, fun hfreeze => ?_, fun f hf => faithful_of_freeze hf⟩
  · exact ((Logged.start owner).run (Sound.start owner) events).bound
  · have hclosed : ((World.start owner).run events).journal.closed = true := closed_of_mem hfreeze
    refine ⟨fun stamp id r hr => ?_, fun p authenticated r hr => ?_⟩
    · rw [(reserveIdentity_eq_ok hr).1] at hclosed
      simp at hclosed
    · rw [(arm_eq_ok hr).1] at hclosed
      simp at hclosed

/-- Two attempts, the second reserved and armed first, and a slot reserved in
between that is given back. -/
def Sample.interleaved : List Event :=
  [.reserve Sample.stamp (Sample.id "first"), .reserve Sample.stamp (Sample.id "unarmed"),
    .reserve Sample.stamp (Sample.id "second"), .arm (Sample.permit 2) Sample.stamp,
    .drop (Sample.permit 1), .arm (Sample.permit 0) Sample.stamp,
    .httpStatus (Sample.permit 0) 200, .validatedCompletion (Sample.permit 0) true, .freeze,
    .drop (Sample.permit 0), .drop (Sample.permit 2)]

/-- The history of such a run, and the facts it is frozen to. -/
theorem freeze_faithful_interleaved :
    ((World.start Sample.owner).armings Sample.interleaved).map (fun a => a.1.text)
        = ["second", "first"]
      ∧ ∃ f, ((World.start Sample.owner).run Sample.interleaved).journal.freeze.1 = .ok f
        ∧ Faithful Sample.owner Sample.interleaved f :=
  ⟨by decide +kernel, _, rfl, (freeze_faithful Sample.owner Sample.interleaved).2.2 _ rfl⟩

end BitRouter.Receipts
