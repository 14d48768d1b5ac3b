import BitRouter.Receipts.Journal

/-!
# What one operation does to a journal

`Stepped` says what an operation of an interleaving can do: nothing, take a
free slot, arm a reserved one, edit an armed one, release a permit, or touch
nothing but the retained frames or the closed mark. Every invariant of a run
is proved by cases on it.

`Sound` is the invariant of all runs: the permits that exist hold the live
slots, one each, and the armed entries are numbered in the order in which
they were armed.
-/

namespace BitRouter.Receipts

open Tenancy

variable {e : Entry} {j : Journal}

namespace Journal

@[simp] theorem setSlot_slots_self (j : Journal) (index : Slot) (entry : Option Entry) :
    (j.setSlot index entry).slots index = entry := Function.update_self _ _ _

theorem setSlot_slots_of_ne (j : Journal) {index i : Slot} (entry : Option Entry)
    (h : i ≠ index) : (j.setSlot index entry).slots i = j.slots i :=
  Function.update_of_ne h _ _

theorem mem_entries : e ∈ j.entries ↔ ∃ i, j.slots i = some e := by
  simp [entries, List.mem_filterMap]

end Journal

namespace World

theorem run_append (w : World) (a b : List Event) : w.run (a ++ b) = (w.run a).run b :=
  List.foldl_append

theorem run_cons (w : World) (e : Event) (events : List Event) :
    w.run (e :: events) = (w.step e).run events := rfl

end World

/-- **What an operation of a permit does to the entry of its slot.** -/
inductive Edited : Event → Entry → Entry → Prop
  | status (p : AttemptPermit) (status : ℕ) (entry : Entry)
      (range : 200 ≤ status ∧ status ≤ 599) :
      Edited (.httpStatus p status) entry (Journal.recordStatus status entry).2
  | usage (p : AttemptPermit) (protocol : Protocol) (original : Json) (entry : Entry) :
      Edited (.observeUsage p protocol original) entry
        { entry with evidence := entry.evidence.observe protocol original }
  | incomplete (p : AttemptPermit) (entry : Entry) :
      Edited (.incompleteUsage p) entry { entry with evidence := entry.evidence.markIncomplete }
  | completion (p : AttemptPermit) (successful : Bool) (entry : Entry) :
      Edited (.validatedCompletion p successful) entry
        (Journal.recordCompletion successful entry).2

/-- **What an operation does.** -/
inductive Stepped (w : World) : Event → World → Prop
  | idle (e : Event) : Stepped w e w
  | reserved (stamp : TargetStamp) (id : AttemptId) (index : Slot)
      (opened : w.journal.closed = false) (owned : w.journal.owner = stamp.owner)
      (fresh : ∀ i e, w.journal.slots i = some e → e.id ≠ id)
      (free : w.journal.slots index = none) :
      Stepped w (.reserve stamp id)
        { journal := w.journal.setSlot index (some (Journal.newEntry stamp id))
          permits := w.permits ++ [⟨index, stamp⟩] }
  | armed (p : AttemptPermit) (authenticated : TargetStamp) (entry : Entry)
      (held : p ∈ w.permits) (opened : w.journal.closed = false)
      (room : w.journal.armed < slotCount) (found : w.journal.slots p.index = some entry)
      (isReserved : entry.phase = .reserved)
      (done : w.journal.arm p authenticated = .ok (entry.id,
        { w.journal.setSlot p.index (some { entry with phase := .armed, order := w.journal.armed })
          with armed := w.journal.armed + 1 })) :
      Stepped w (.arm p authenticated)
        { journal := { w.journal.setSlot p.index
              (some { entry with phase := .armed, order := w.journal.armed })
            with armed := w.journal.armed + 1 }
          permits := w.permits }
  | edited (e : Event) (p : AttemptPermit) (entry entry' : Entry) (isPermit : e.permit = some p)
      (held : p ∈ w.permits) (found : w.journal.slots p.index = some entry)
      (isArmed : entry.phase ≠ .reserved) (isLive : entry.live = true)
      (edit : Edited e entry entry') :
      Stepped w e { journal := w.journal.setSlot p.index (some entry'), permits := w.permits }
  | dropped (p : AttemptPermit) (held : p ∈ w.permits) :
      Stepped w (.drop p)
        { journal := w.journal.setSlot p.index ((w.journal.slots p.index).bind Journal.dropEntry)
          permits := w.permits.erase p }
  | retained (p : AttemptPermit) (protocol : Protocol) (source : Tenancy.UsageEvidence.Source)
      (original : Json) (entry : Entry) (held : p ∈ w.permits)
      (found : w.journal.slots p.index = some entry) (isArmed : entry.phase ≠ .reserved) :
      Stepped w (.retainFrame p protocol source original)
        { journal := { w.journal with usageEvidence :=
            w.journal.usageEvidence.observe entry.id protocol.wire source original }
          permits := w.permits }
  | noted (e : Event) (s : Snapshot) (opened : w.journal.closed = false)
      (isNote : e.permit = none ∧ ∀ stamp id, e ≠ .reserve stamp id)
      (done : e.apply w.journal = { w.journal with usageEvidence := s })
      (frames : s.frames = w.journal.usageEvidence.frames) :
      Stepped w e { journal := { w.journal with usageEvidence := s }, permits := w.permits }
  | froze : Stepped w .freeze { journal := { w.journal with closed := true }, permits := w.permits }

theorem reserveIdentity_eq_ok {stamp : TargetStamp} {id : AttemptId} {r : AttemptPermit × Journal}
    (h : j.reserveIdentity stamp id = .ok r) :
    j.closed = false ∧ j.owner = stamp.owner ∧ (∀ i e, j.slots i = some e → e.id ≠ id)
      ∧ ∃ index, j.slots index = none
        ∧ r = (⟨index, stamp⟩, j.setSlot index (some (Journal.newEntry stamp id))) := by
  obtain ⟨_, howner, h⟩ := bind_eq_ok.mp h
  obtain ⟨_, hopen, h⟩ := bind_eq_ok.mp h
  obtain ⟨_, hfresh, h⟩ := bind_eq_ok.mp h
  obtain ⟨index, hindex, h⟩ := bind_eq_ok.mp h
  rw [ensure_eq_ok] at howner hopen hfresh
  rw [orFail_eq_ok] at hindex
  refine ⟨hopen, howner, fun i e he heq => hfresh ?_, index, ?_, (pure_eq_ok.mp h).symm⟩
  · exact List.any_eq_true.mpr ⟨e, Journal.mem_entries.mpr ⟨i, he⟩, by simpa using heq⟩
  · simpa using List.find?_some hindex

variable {p : AttemptPermit}

theorem arm_eq_ok {authenticated : TargetStamp} {r : AttemptId × Journal}
    (h : j.arm p authenticated = .ok r) :
    j.closed = false ∧ j.armed < slotCount ∧ ∃ entry, j.slots p.index = some entry
      ∧ entry.phase = .reserved
      ∧ r = (entry.id, { j.setSlot p.index (some { entry with phase := .armed, order := j.armed })
          with armed := j.armed + 1 }) := by
  obtain ⟨_, -, h⟩ := bind_eq_ok.mp h
  obtain ⟨_, hopen, h⟩ := bind_eq_ok.mp h
  obtain ⟨_, hroom, h⟩ := bind_eq_ok.mp h
  obtain ⟨entry, hentry, h⟩ := bind_eq_ok.mp h
  obtain ⟨_, hphase, h⟩ := bind_eq_ok.mp h
  rw [ensure_eq_ok] at hopen hroom hphase
  exact ⟨hopen, hroom, entry, orFail_eq_ok.mp hentry, hphase, (pure_eq_ok.mp h).symm⟩

/-- An edit leaves the journal, or replaces the entry of an armed live
slot. -/
theorem edit_cases (j : Journal) (index : Slot) (f : Entry → Except Error Unit × Entry) :
    (j.edit index f).2 = j ∨ ∃ entry, j.slots index = some entry ∧ entry.phase ≠ .reserved
      ∧ entry.live = true ∧ (j.edit index f).2 = j.setSlot index (some (f entry).2) := by
  unfold Journal.edit
  split
  · exact Or.inl rfl
  · rename_i entry hentry
    split
    · exact Or.inl rfl
    · rename_i hguard
      rw [not_or] at hguard
      exact Or.inr ⟨entry, hentry, hguard.1, by simpa using hguard.2, rfl⟩

variable {w : World}

theorem stepped_edit {e : Event} {f : Entry → Except Error Unit × Entry}
    (hpermit : e.permit = some p) (hp : p ∈ w.permits)
    (happly : e.apply w.journal = (w.journal.edit p.index f).2) (hhold : e.hold w = w.permits)
    (hedit : ∀ entry, Edited e entry (f entry).2) :
    Stepped w e { journal := e.apply w.journal, permits := e.hold w } := by
  rw [happly, hhold]
  rcases edit_cases w.journal p.index f with heq | ⟨entry, hentry, hphase, hlive, heq⟩
  · rw [heq]
    exact Stepped.idle e
  · rw [heq]
    exact Stepped.edited e p entry _ hpermit hp hentry hphase hlive (hedit entry)

/-- **Every operation is one of the cases.** -/
theorem stepped (w : World) (e : Event) : Stepped w e (w.step e) := by
  unfold World.step
  split
  swap
  · exact Stepped.idle e
  rename_i henabled
  have hheld : e.permit.all (fun p => p ∈ w.permits) = true := by
    exact (Bool.and_eq_true_iff.mp henabled).1
  cases e with
  | reserve stamp id =>
    cases h : w.journal.reserveIdentity stamp id with
    | error e =>
      simp only [Event.apply, Event.hold, h]
      exact Stepped.idle _
    | ok r =>
      obtain ⟨hopen, howner, hfresh, index, hfree, rfl⟩ := reserveIdentity_eq_ok h
      simp only [Event.apply, Event.hold, h]
      exact Stepped.reserved stamp id index hopen howner hfresh hfree
  | arm p authenticated =>
    have hp : p ∈ w.permits := by simpa [Event.permit] using hheld
    cases h : w.journal.arm p authenticated with
    | error e =>
      simp only [Event.apply, Event.hold, h]
      exact Stepped.idle _
    | ok r =>
      obtain ⟨hopen, hroom, entry, hentry, hphase, rfl⟩ := arm_eq_ok h
      simp only [Event.apply, Event.hold, h]
      exact Stepped.armed p authenticated entry hp hopen hroom hentry hphase h
  | httpStatus p status =>
    have hp : p ∈ w.permits := by simpa [Event.permit] using hheld
    by_cases hrange : 200 ≤ status ∧ status ≤ 599
    · exact stepped_edit rfl hp (by rw [Event.apply, Journal.httpStatus, if_pos hrange]) rfl
        (fun entry => Edited.status p status entry hrange)
    · simp only [Event.apply, Event.hold, Journal.httpStatus, if_neg hrange]
      exact Stepped.idle _
  | observeUsage p protocol original =>
    have hp : p ∈ w.permits := by simpa [Event.permit] using hheld
    exact stepped_edit rfl hp rfl rfl (fun entry => Edited.usage p protocol original entry)
  | retainFrame p protocol source original =>
    have hp : p ∈ w.permits := by simpa [Event.permit] using hheld
    obtain ⟨entry, hentry, hphase⟩ :=
      (Option.any_eq_true _ _).mp (Bool.and_eq_true_iff.mp henabled).2
    simp only [Event.apply, Event.hold, Journal.retainFrame, hentry]
    exact Stepped.retained p protocol source original entry hp hentry (by simpa using hphase)
  | incompleteUsage p =>
    have hp : p ∈ w.permits := by simpa [Event.permit] using hheld
    exact stepped_edit rfl hp rfl rfl (fun entry => Edited.incomplete p entry)
  | validatedCompletion p successful =>
    have hp : p ∈ w.permits := by simpa [Event.permit] using hheld
    exact stepped_edit rfl hp rfl rfl (fun entry => Edited.completion p successful entry)
  | drop p =>
    have hp : p ∈ w.permits := by simpa [Event.permit] using hheld
    exact Stepped.dropped p hp
  | observeEstimator estimate =>
    cases h : w.journal.observeEstimator estimate with
    | error e =>
      simp only [Event.apply, Event.hold, h]
      exact Stepped.idle _
    | ok r =>
      have hdone := h
      simp only [Event.apply, Event.hold, h]
      obtain ⟨_, -, h⟩ := bind_eq_ok.mp h
      obtain ⟨_, hopen, h⟩ := bind_eq_ok.mp h
      obtain ⟨_, -, h⟩ := bind_eq_ok.mp h
      obtain rfl := pure_eq_ok.mp h
      refine Stepped.noted _ _ (ensure_eq_ok.mp hopen) (by simp [Event.permit]) ?_ rfl
      simp only [Event.apply, hdone]
      rfl
  | linkChild child =>
    cases h : w.journal.linkChild child with
    | error e =>
      simp only [Event.apply, Event.hold, h]
      exact Stepped.idle _
    | ok r =>
      have hdone := h
      simp only [Event.apply, Event.hold, h]
      obtain ⟨_, -, h⟩ := bind_eq_ok.mp h
      obtain ⟨_, hopen, h⟩ := bind_eq_ok.mp h
      obtain ⟨_, -, h⟩ := bind_eq_ok.mp h
      obtain ⟨_, -, h⟩ := bind_eq_ok.mp h
      obtain rfl := pure_eq_ok.mp h
      refine Stepped.noted _ _ (ensure_eq_ok.mp hopen).1 (by simp [Event.permit]) ?_ rfl
      simp only [Event.apply, hdone]
      rfl
  | linkParent parent =>
    cases h : parent.linkChild w.journal with
    | error e =>
      simp only [Event.apply, Event.hold, h]
      exact Stepped.idle _
    | ok r =>
      have hdone := h
      simp only [Event.apply, Event.hold, h]
      obtain ⟨_, -, h⟩ := bind_eq_ok.mp h
      obtain ⟨_, hopen, h⟩ := bind_eq_ok.mp h
      obtain ⟨_, -, h⟩ := bind_eq_ok.mp h
      obtain ⟨_, -, h⟩ := bind_eq_ok.mp h
      obtain rfl := pure_eq_ok.mp h
      refine Stepped.noted _ _ (ensure_eq_ok.mp hopen).2.1 (by simp [Event.permit]) ?_ rfl
      simp only [Event.apply, hdone]
      rfl
  | freeze => exact Stepped.froze

/-! ## The invariant of all runs -/

/-- **What every entry satisfies.** A permit is live until its attempt has an
outcome, a definite outcome comes with a status, and an unknown one with
incomplete evidence. -/
structure Entry.Ok (e : Entry) : Prop where
  live : e.phase = .reserved ∨ e.phase = .armed → e.live = true
  status : e.phase = .completed ∨ e.phase = .failed → e.status.isSome = true
  incomplete : e.phase = .unknown → e.evidence.incomplete = true

/-- **The invariant of a run.** -/
structure Sound (w : World) : Prop where
  entry : ∀ i e, w.journal.slots i = some e → e.Ok
  held : ∀ p ∈ w.permits, ∃ e, w.journal.slots p.index = some e ∧ e.live = true
    ∧ e.target = p.stamp.target
  live : ∀ i e, w.journal.slots i = some e → e.live = true → ∃ p ∈ w.permits, p.index = i
  distinct : (w.permits.map (·.index)).Nodup
  ids : ∀ i i' e e', w.journal.slots i = some e → w.journal.slots i' = some e' → e.id = e'.id →
    i = i'

/-- What an edit of an armed entry keeps. -/
structure Kept (e e' : Entry) : Prop where
  id : e'.id = e.id
  target : e'.target = e.target
  order : e'.order = e.order
  live : e'.live = e.live
  armed : e.phase ≠ .reserved → e'.phase ≠ .reserved

theorem recordStatus_kept (status : ℕ) (e : Entry) : Kept e (Journal.recordStatus status e).2 := by
  unfold Journal.recordStatus
  split
  · split
    · exact ⟨rfl, rfl, rfl, rfl, id⟩
    · exact ⟨rfl, rfl, rfl, rfl, fun _ => by simp [Journal.conflicting]⟩
  · refine ⟨rfl, rfl, rfl, rfl, fun h => ?_⟩
    dsimp only
    split
    · decide
    · exact h

theorem recordCompletion_kept (successful : Bool) (e : Entry) :
    Kept e (Journal.recordCompletion successful e).2 := by
  unfold Journal.recordCompletion
  split
  · exact ⟨rfl, rfl, rfl, rfl, id⟩
  · split
    · exact ⟨rfl, rfl, rfl, rfl, fun _ => by simp [Journal.conflicting]⟩
    · exact ⟨rfl, rfl, rfl, rfl, fun _ => by cases successful <;> simp [Journal.terminalPhase]⟩

theorem Edited.kept {event : Event} {e' : Entry} (h : Edited event e e') : Kept e e' := by
  cases h with
  | status p status entry range => exact recordStatus_kept status e
  | usage => exact ⟨rfl, rfl, rfl, rfl, id⟩
  | incomplete => exact ⟨rfl, rfl, rfl, rfl, id⟩
  | completion p successful entry => exact recordCompletion_kept successful e

theorem conflicting_ok (hlive : e.live = true) : (Journal.conflicting e).2.Ok :=
  ⟨fun _ => hlive, by simp [Journal.conflicting], fun _ => rfl⟩

theorem recordStatus_ok (he : e.Ok) (hlive : e.live = true) (status : ℕ) :
    (Journal.recordStatus status e).2.Ok := by
  unfold Journal.recordStatus
  split
  · split
    · exact he
    · exact conflicting_ok hlive
  · refine ⟨fun _ => hlive, fun _ => rfl, fun h => he.incomplete ?_⟩
    split at h
    · simp at h
    · exact h

theorem recordCompletion_ok (he : e.Ok) (hlive : e.live = true) (successful : Bool) :
    (Journal.recordCompletion successful e).2.Ok := by
  unfold Journal.recordCompletion
  split
  · exact ⟨he.live, he.status, he.incomplete⟩
  · split
    · exact conflicting_ok hlive
    · rename_i hguard
      rw [not_or, not_not, not_not, Option.any_eq_true] at hguard
      obtain ⟨status, hstatus, -⟩ := hguard.2
      refine ⟨fun _ => hlive, fun _ => by simp [hstatus], fun h => ?_⟩
      cases successful <;> simp [Journal.terminalPhase] at h

theorem Edited.ok {event : Event} {e' : Entry} (h : Edited event e e') (he : e.Ok)
    (hlive : e.live = true) : e'.Ok := by
  cases h with
  | status p status entry range => exact recordStatus_ok he hlive status
  | usage p protocol original =>
    exact ⟨he.live, he.status, fun h => Evidence.incomplete_observe _ _ (he.incomplete h)⟩
  | incomplete => exact ⟨he.live, he.status, fun _ => rfl⟩
  | completion p successful entry => exact recordCompletion_ok he hlive successful

theorem dropEntry_cases {e' : Entry} (h : Journal.dropEntry e = some e') :
    e.phase ≠ .reserved ∧ e'.id = e.id ∧ e'.target = e.target ∧ e'.order = e.order
      ∧ e'.live = false
      ∧ ((e.phase = .armed ∧ e'.phase = .unknown ∧ e'.evidence.incomplete = true)
        ∨ (e.phase ≠ .armed ∧ e'.phase = e.phase ∧ e'.status = e.status
          ∧ e'.evidence = e.evidence)) := by
  unfold Journal.dropEntry at h
  split at h
  · simp at h
  · rename_i hreserved
    split at h
    · rename_i harmed
      obtain rfl := Option.some.inj h
      exact ⟨hreserved, rfl, rfl, rfl, rfl, Or.inl ⟨harmed, rfl, rfl⟩⟩
    · rename_i harmed
      obtain rfl := Option.some.inj h
      exact ⟨hreserved, rfl, rfl, rfl, rfl, Or.inr ⟨harmed, rfl, rfl, rfl⟩⟩

theorem dropEntry_ok {e' : Entry} (he : e.Ok) (h : Journal.dropEntry e = some e') : e'.Ok := by
  obtain ⟨hres, -, -, -, -, ⟨-, hphase, hinc⟩ | ⟨harm, hphase, hstatus, hevidence⟩⟩ :=
    dropEntry_cases h
  · exact ⟨by simp [hphase], by simp [hphase], fun _ => hinc⟩
  · refine ⟨?_, ?_, ?_⟩
    · rw [hphase]
      rintro (h | h)
      · exact absurd h hres
      · exact absurd h harm
    · rw [hphase, hstatus]
      exact he.status
    · rw [hphase, hevidence]
      exact he.incomplete

namespace Sound

theorem start (owner : Owner) : Sound (World.start owner) := by
  refine ⟨?_, ?_, ?_, ?_, ?_⟩ <;> simp [World.start, Journal.owned]

section

variable (h : Sound w)

include h

theorem eq_of_index {q : AttemptPermit} (hp : p ∈ w.permits) (hq : q ∈ w.permits)
    (heq : p.index = q.index) : p = q :=
  List.inj_on_of_nodup_map h.distinct hp hq heq

/-- No permit is held on a free slot. -/
theorem index_notMem {i : Slot} (hfree : w.journal.slots i = none) :
    i ∉ w.permits.map (·.index) := by
  intro hmem
  obtain ⟨p, hp, rfl⟩ := List.mem_map.mp hmem
  obtain ⟨e, he, -⟩ := h.held p hp
  rw [hfree] at he
  simp at he

/-- Replacing the entry of a held slot by one of the same attempt keeps the
invariant. -/
theorem setSlot {index : Slot} {e e' : Entry}
    (hfound : w.journal.slots index = some e) (hlive : e.live = true) (hok : e'.Ok)
    (hid : e'.id = e.id) (htarget : e'.target = e.target) (hlive' : e'.live = true) (j : Journal)
    (hj : j.slots = (w.journal.setSlot index (some e')).slots) :
    Sound { journal := j, permits := w.permits } := by
  have hself : j.slots index = some e' := by rw [hj, Journal.setSlot_slots_self]
  have hother : ∀ i, i ≠ index → j.slots i = w.journal.slots i := by
    intro i hi
    rw [hj, Journal.setSlot_slots_of_ne _ _ hi]
  refine ⟨fun i x hx => ?_, fun p hp => ?_, fun i x hx hxlive => ?_, h.distinct,
    fun i i' x x' hx hx' heq => ?_⟩
  · by_cases hi : i = index
    · subst hi
      obtain rfl := Option.some.inj (hself.symm.trans hx)
      exact hok
    · exact h.entry i x ((hother i hi).symm.trans hx)
  · obtain ⟨x, hx, hxlive, hxtarget⟩ := h.held p hp
    by_cases hi : p.index = index
    · rw [hi] at hx
      obtain rfl := Option.some.inj (hfound.symm.trans hx)
      exact ⟨e', by rw [hi]; exact hself, hlive', htarget.trans hxtarget⟩
    · exact ⟨x, (hother _ hi).trans hx, hxlive, hxtarget⟩
  · by_cases hi : i = index
    · subst hi
      exact h.live i e hfound hlive
    · exact h.live i x ((hother i hi).symm.trans hx) hxlive
  · have hback : ∀ i x, j.slots i = some x → ∃ y, w.journal.slots i = some y ∧ y.id = x.id := by
      intro i x hx
      by_cases hi : i = index
      · subst hi
        obtain rfl := Option.some.inj (hself.symm.trans hx)
        exact ⟨e, hfound, hid.symm⟩
      · exact ⟨x, (hother i hi).symm.trans hx, rfl⟩
    obtain ⟨y, hy, hyid⟩ := hback i x hx
    obtain ⟨y', hy', hyid'⟩ := hback i' x' hx'
    exact h.ids i i' y y' hy hy' (hyid.trans (heq.trans hyid'.symm))

/-- Nothing but the slots matters. -/
theorem congr (hj : j.slots = w.journal.slots) :
    Sound { journal := j, permits := w.permits } := by
  refine ⟨?_, ?_, ?_, h.distinct, ?_⟩
  · rw [hj]
    exact h.entry
  · rw [hj]
    exact h.held
  · rw [hj]
    exact h.live
  · rw [hj]
    exact h.ids

theorem reserve {stamp : TargetStamp} {id : AttemptId} {index : Slot}
    (hfresh : ∀ i e, w.journal.slots i = some e → e.id ≠ id)
    (hfree : w.journal.slots index = none) :
    Sound { journal := w.journal.setSlot index (some (Journal.newEntry stamp id))
            permits := w.permits ++ [⟨index, stamp⟩] } := by
  have hother : ∀ i e,
    (w.journal.setSlot index (some (Journal.newEntry stamp id))).slots i = some e →
      (i = index ∧ e = Journal.newEntry stamp id) ∨ (i ≠ index ∧ w.journal.slots i = some e) := by
    intro i e he
    by_cases hi : i = index
    · subst hi
      rw [Journal.setSlot_slots_self] at he
      exact Or.inl ⟨rfl, (Option.some.inj he).symm⟩
    · rw [Journal.setSlot_slots_of_ne _ _ hi] at he
      exact Or.inr ⟨hi, he⟩
  refine ⟨fun i e he => ?_, fun p hp => ?_, fun i e he hlive => ?_, ?_,
    fun i i' e e' he he' heq => ?_⟩
  · rcases hother i e he with ⟨-, rfl⟩ | ⟨-, he⟩
    · exact ⟨fun _ => rfl, by simp [Journal.newEntry], by simp [Journal.newEntry]⟩
    · exact h.entry i e he
  · rcases List.mem_append.mp hp with hp | hp
    · obtain ⟨e, he, hlive, htarget⟩ := h.held p hp
      have hne : p.index ≠ index := by
        intro heq
        rw [heq, hfree] at he
        simp at he
      exact ⟨e, (Journal.setSlot_slots_of_ne _ _ hne).trans he, hlive, htarget⟩
    · obtain rfl := List.mem_singleton.mp hp
      exact ⟨_, Journal.setSlot_slots_self _ _ _, rfl, rfl⟩
  · rcases hother i e he with ⟨rfl, -⟩ | ⟨-, he⟩
    · exact ⟨_, List.mem_append_right _ (List.mem_singleton_self _), rfl⟩
    · obtain ⟨p, hp, hi⟩ := h.live i e he hlive
      exact ⟨p, List.mem_append_left _ hp, hi⟩
  · rw [List.map_append, List.map_singleton, List.nodup_append]
    refine ⟨h.distinct, List.nodup_singleton _, fun a ha b hb => ?_⟩
    obtain rfl := List.mem_singleton.mp hb
    rintro rfl
    exact h.index_notMem hfree ha
  · rcases hother i e he with ⟨rfl, rfl⟩ | ⟨-, hold⟩
    · rcases hother i' e' he' with ⟨rfl, -⟩ | ⟨-, hold'⟩
      · rfl
      · exact absurd heq.symm (hfresh i' e' hold')
    · rcases hother i' e' he' with ⟨rfl, rfl⟩ | ⟨-, hold'⟩
      · exact absurd heq (hfresh i e hold)
      · exact h.ids i i' e e' hold hold' heq

theorem drop (hp : p ∈ w.permits) :
    Sound { journal := w.journal.setSlot p.index ((w.journal.slots p.index).bind Journal.dropEntry)
            permits := w.permits.erase p } := by
  have hnodup := List.Nodup.of_map _ h.distinct
  have hother : ∀ i e, (w.journal.setSlot p.index
      ((w.journal.slots p.index).bind Journal.dropEntry)).slots i = some e →
      (i = p.index ∧ ∃ x, w.journal.slots i = some x ∧ Journal.dropEntry x = some e)
        ∨ (i ≠ p.index ∧ w.journal.slots i = some e) := by
    intro i e he
    by_cases hi : i = p.index
    · subst hi
      rw [Journal.setSlot_slots_self] at he
      exact Or.inl ⟨rfl, Option.bind_eq_some_iff.mp he⟩
    · rw [Journal.setSlot_slots_of_ne _ _ hi] at he
      exact Or.inr ⟨hi, he⟩
  refine ⟨fun i e he => ?_, fun q hq => ?_, fun i e he hlive => ?_, ?_,
    fun i i' e e' he he' heq => ?_⟩
  · rcases hother i e he with ⟨-, x, hx, hdrop⟩ | ⟨-, he⟩
    · exact dropEntry_ok (h.entry i x hx) hdrop
    · exact h.entry i e he
  · have hmem := (hnodup.mem_erase_iff.mp hq).2
    have hne : q.index ≠ p.index := fun heq =>
      (hnodup.mem_erase_iff.mp hq).1 (h.eq_of_index hmem hp heq)
    obtain ⟨e, he, hlive, htarget⟩ := h.held q hmem
    exact ⟨e, (Journal.setSlot_slots_of_ne _ _ hne).trans he, hlive, htarget⟩
  · rcases hother i e he with ⟨-, x, -, hdrop⟩ | ⟨hi, he⟩
    · rw [(dropEntry_cases hdrop).2.2.2.2.1] at hlive
      simp at hlive
    · obtain ⟨q, hq, rfl⟩ := h.live i e he hlive
      exact ⟨q, hnodup.mem_erase_iff.mpr ⟨fun heq => hi (congrArg _ heq), hq⟩, rfl⟩
  · exact h.distinct.sublist (List.erase_sublist.map _)
  · have hback : ∀ i e, (w.journal.setSlot p.index
        ((w.journal.slots p.index).bind Journal.dropEntry)).slots i = some e →
        ∃ y, w.journal.slots i = some y ∧ y.id = e.id := by
      intro i e he
      rcases hother i e he with ⟨-, x, hx, hdrop⟩ | ⟨-, he⟩
      · exact ⟨x, hx, (dropEntry_cases hdrop).2.1.symm⟩
      · exact ⟨e, he, rfl⟩
    obtain ⟨y, hy, hyid⟩ := hback i e he
    obtain ⟨y', hy', hyid'⟩ := hback i' e' he'
    exact h.ids i i' y y' hy hy' (hyid.trans (heq.trans hyid'.symm))

/-- **Every operation keeps the invariant.** -/
theorem step (e : Event) : Sound (w.step e) := by
  have hstep := stepped w e
  generalize w.step e = w' at hstep
  cases hstep with
  | idle => exact h
  | reserved stamp id index opened owned fresh free => exact h.reserve fresh free
  | armed p authenticated entry held opened room found isReserved done =>
    obtain ⟨x, hx, hlive, -⟩ := h.held p held
    obtain rfl := Option.some.inj (found.symm.trans hx)
    have hok : ({ entry with phase := .armed, order := w.journal.armed } : Entry).Ok :=
      ⟨fun _ => hlive, by simp, by simp⟩
    exact h.setSlot found hlive hok rfl rfl hlive _ rfl
  | edited e p entry entry' isPermit held found isArmed isLive edit =>
    have hkept := edit.kept
    exact h.setSlot found isLive (edit.ok (h.entry _ _ found) isLive) hkept.id hkept.target
      (hkept.live.trans isLive) _ rfl
  | dropped p held => exact h.drop held
  | retained => exact h.congr rfl
  | noted => exact h.congr rfl
  | froze => exact h.congr rfl

/-- **Every run keeps the invariant.** -/
theorem run (events : List Event) : Sound (w.run events) := by
  induction events generalizing w with
  | nil => exact h
  | cons e events ih => exact ih (h.step e)

end

end Sound

end BitRouter.Receipts
