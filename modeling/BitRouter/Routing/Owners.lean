import BitRouter.Routing.Moves

/-!
# Owners

The counters stay counts of the guards (`Owned.move`), and the windows stay ordered,
so that none has more buckets than its width.
-/

namespace BitRouter.Routing

variable {runtime : Runtime} {world world' : World} {op : Op}

/-! ## Counting guards -/

theorem countP_split (p : Held → Bool) (front back : List Held) (held : Held) :
    (front ++ held :: back).countP p
      = front.countP p + back.countP p + if p held = true then 1 else 0 := by
  rw [List.countP_append, List.countP_cons, Nat.add_assoc]

section Lanes

variable (held : Held) {lane : Lane}

theorem active_of_live (h : held.guard.finished = false) :
    held.active lane = held.guard.uses lane := by
  rw [Held.active, h, Bool.not_false, Bool.true_and]

theorem active_of_done (h : held.guard.finished = true) : held.active lane = false := by
  rw [Held.active, h, Bool.not_true, Bool.false_and]

theorem pending_of_unsent (hlive : held.guard.finished = false) (hsent : held.guard.sent = none) :
    held.pending lane = held.guard.uses lane := by
  rw [Held.pending, active_of_live held hlive, hsent, Option.isNone_none, Bool.and_true]

theorem pending_of_sent (h : held.guard.sent.isSome = true) : held.pending lane = false := by
  rw [Held.pending, Option.isNone_eq_false_iff.mpr h, Bool.and_false]

theorem pending_of_done (h : held.guard.finished = true) : held.pending lane = false := by
  rw [Held.pending, active_of_done held h, Bool.false_and]

end Lanes

theorem heldBytes_split (front back : List Held) (held : Held) :
    heldBytes (front ++ held :: back) = heldBytes (front ++ back) + held.guard.bytes := by
  unfold heldBytes
  rw [List.map_append, List.sum_append, List.map_cons, List.sum_cons, List.map_append,
    List.sum_append]
  omega

theorem heldBytes_concat (guards : List Held) (held : Held) :
    heldBytes (guards ++ [held]) = heldBytes guards + held.guard.bytes := by
  rw [heldBytes_split, List.append_nil]

theorem Aging.counts {now : ℕ} {state state' : State} (h : Aging now state state') (lane : Lane) :
    (state'.rate lane).active = (state.rate lane).active
      ∧ (state'.rate lane).pending = (state.rate lane).pending := by
  rcases h.rate lane with hrate | hrate
  · rw [hrate]
    exact ⟨rfl, rfl⟩
  · rw [hrate]
    exact ⟨rfl, rfl⟩

theorem Owned.init : Owned runtime {} where
  sound := ⟨Table.unique_empty, Table.unique_empty, rfl⟩
  active lane := by cases lane <;> rfl
  pending lane := by cases lane <;> rfl
  total := rfl

section Cases

variable {held : Held} {front back : List Held} {now latest : ℕ} {state' : State}

/-- Time alone gives nothing back. -/
theorem Owned.rests (h : Owned runtime world) (haging : Aging now world.state state')
    (hsound : Sound runtime.layout (heldBytes world.guards) state') :
    Owned runtime { world with state := state', latest := latest } where
  sound := hsound
  active lane := (haging.counts lane).1.trans (h.active lane)
  pending lane := (haging.counts lane).2.trans (h.pending lane)
  total := haging.active.trans h.total

/-- **A booked guard is counted** in each of its lanes. -/
theorem Owned.admitted {key : Key} {spare : ℕ} {limits : Limits} {ready : State}
    (h : Owned runtime world)
    (hready : Ready runtime key limits now (heldBytes world.guards) world.state ready) :
    Owned runtime { world with
      state := (ready.book runtime.layout key (limits.providerKey key)
        (guardBytes runtime key spare limits) now).1
      guards := world.guards ++ [⟨(ready.book runtime.layout key (limits.providerKey key)
        (guardBytes runtime key spare limits) now).2, latest⟩]
      latest := latest } := by
  refine ⟨?_, fun lane => ?_, fun lane => ?_, ?_⟩
  · rw [heldBytes_concat]
    exact sound_book hready.sound _ _ _ _
  · rw [rate_book, List.countP_append, List.countP_singleton, ← h.active,
      ← (hready.aging.counts lane).1, active_of_live _ rfl]
    split
    · rfl
    · rfl
  · rw [rate_book, List.countP_append, List.countP_singleton, ← h.pending,
      ← (hready.aging.counts lane).2, pending_of_unsent _ rfl rfl]
    split
    · rfl
    · rfl
  · rw [List.countP_append, List.countP_singleton, ← h.total]
    exact congrArg (· + 1) hready.aging.active

/-- **A request that is sent** is pending no longer in any lane of its guard. -/
theorem Owned.sent {sends : List Send} (h : Owned runtime world)
    (hguards : world.guards = front ++ held :: back)
    (hsent : SentFrom held.guard now world.state state')
    (hsound : Sound runtime.layout (heldBytes world.guards) state') :
    Owned runtime { state := state', guards := front ++ held.sent now :: back
                    latest := latest, sends := sends } := by
  have hactive := h.active
  have hpending := h.pending
  have htotal := h.total
  simp only [hguards, countP_split] at hactive hpending htotal
  refine ⟨?_, fun lane => ?_, fun lane => ?_, ?_⟩
  · rw [heldBytes_split]
    rw [hguards, heldBytes_split] at hsound
    exact hsound
  · rw [countP_split, hsent.rate]
    have hsame : (if held.guard.uses lane then (world.state.rate lane).sent (tickOf now)
        else world.state.rate lane).active = (world.state.rate lane).active := by
      split <;> rfl
    rw [hsame]
    exact hactive lane
  · rw [countP_split, hsent.rate]
    have hbefore := hpending lane
    rw [pending_of_unsent held hsent.unfinished hsent.unsent] at hbefore
    rw [pending_of_sent (held.sent now) rfl, if_neg Bool.false_ne_true]
    split
    · next hlane =>
      rw [if_pos hlane] at hbefore
      show (world.state.rate lane).pending - 1 = _
      omega
    · next hlane =>
      rw [if_neg hlane] at hbefore
      exact hbefore
  · rw [countP_split, hsent.active]
    exact htotal

/-- **A guard that finishes** gives back what it owned, its reservation too if it was
never sent. -/
theorem Owned.finished {outcome : Outcome} (h : Owned runtime world)
    (hguards : world.guards = front ++ held :: back) (hlive : held.guard.finished = false)
    (hfinish : FinishedFrom runtime.lastInstant held.guard outcome now world.state state')
    (hsound : Sound runtime.layout (heldBytes world.guards) state') :
    Owned runtime { world with
      state := state', guards := front ++ held.finished :: back, latest := latest } := by
  have hactive := h.active
  have hpending := h.pending
  have htotal := h.total
  simp only [hguards, countP_split] at hactive hpending htotal
  refine ⟨?_, fun lane => ?_, fun lane => ?_, ?_⟩
  · rw [heldBytes_split]
    rw [hguards, heldBytes_split] at hsound
    exact hsound
  · rw [countP_split, hfinish.rate]
    have hbefore := hactive lane
    rw [active_of_live held hlive] at hbefore
    rw [active_of_done held.finished rfl, if_neg Bool.false_ne_true]
    split
    · next hlane =>
      rw [if_pos hlane] at hbefore
      show (world.state.rate lane).active - 1 = _
      omega
    · next hlane =>
      rw [if_neg hlane] at hbefore
      exact hbefore
  · rw [countP_split, hfinish.rate]
    have hbefore := hpending lane
    rw [Held.pending, active_of_live held hlive] at hbefore
    rw [pending_of_done held.finished rfl, if_neg Bool.false_ne_true]
    split
    · next hlane =>
      rw [hlane, Bool.true_and] at hbefore
      show (if held.guard.sent.isSome = true then (world.state.rate lane).pending
        else (world.state.rate lane).pending - 1) = _
      cases hsent : held.guard.sent with
      | none =>
        rw [hsent, if_pos Option.isNone_none] at hbefore
        rw [if_neg (by simp)]
        omega
      | some started =>
        rw [hsent, if_neg (by simp)] at hbefore
        exact hbefore
    · next hlane =>
      rw [Bool.not_eq_true] at hlane
      rw [hlane, Bool.false_and, if_neg Bool.false_ne_true] at hbefore
      exact hbefore
  · rw [countP_split, hfinish.active]
    rw [hlive, if_pos (by decide)] at htotal
    exact Nat.sub_eq_of_eq_add htotal

/-- A guard that is finished owns its bytes only. -/
theorem Owned.released (h : Owned runtime world) (hguards : world.guards = front ++ held :: back)
    (hdone : held.guard.finished = true) :
    Owned runtime { world with
      state := world.state.released held.guard, guards := front ++ back } := by
  have hactive := h.active
  have hpending := h.pending
  have htotal := h.total
  simp only [hguards, countP_split] at hactive hpending htotal
  refine ⟨⟨h.sound.targets, h.sound.providers, ?_⟩, fun lane => ?_, fun lane => ?_, ?_⟩
  · have hbytes := h.sound.bytes
    rw [hguards, heldBytes_split] at hbytes
    show world.state.bytes - held.guard.bytes = heldBytes (front ++ back)
      + world.state.targets.charges _ + world.state.providers.charges _
    omega
  · have hbefore := hactive lane
    rw [active_of_done held hdone, if_neg Bool.false_ne_true] at hbefore
    rw [List.countP_append]
    exact hbefore
  · have hbefore := hpending lane
    rw [pending_of_done held hdone, if_neg Bool.false_ne_true] at hbefore
    rw [List.countP_append]
    exact hbefore
  · rw [hdone, if_neg (by decide)] at htotal
    rw [List.countP_append]
    exact htotal

end Cases

/-- **A move keeps the counters.** -/
theorem Owned.move (h : Owned runtime world) (hmove : Moves runtime world op world') :
    Owned runtime world' := by
  cases hmove with
  | rests _ now state' hnow haging hsound hown => exact h.rests haging hsound
  | admitted heap key spare limits now ready hready => exact h.admitted hready
  | sent front held back now state' hguards hsent hsound => exact h.sent hguards hsent hsound
  | finished front held back outcome now state' hguards hlive hfinish hsound =>
    exact h.finished hguards hlive hfinish hsound
  | released front held back hguards hdone => exact h.released hguards hdone

/-! ## Ordered windows -/

/-- Every window is in order. -/
def Windowed (world : World) : Prop :=
  ∀ lane, Buckets.Ordered rateBuckets (world.state.rate lane).seconds

theorem windowed_init : Windowed {} := fun lane => by
  cases lane <;> exact Buckets.ordered_nil

theorem Aging.ordered {now : ℕ} {state state' : State} (h : Aging now state state')
    {lane : Lane} (hordered : Buckets.Ordered rateBuckets (state.rate lane).seconds) :
    Buckets.Ordered rateBuckets (state'.rate lane).seconds := by
  rcases h.rate lane with hrate | hrate
  · rw [hrate]
    exact hordered
  · rw [hrate]
    exact hordered.expire

theorem Windowed.move (h : Windowed world) (hmove : Moves runtime world op world') :
    Windowed world' := by
  intro lane
  cases hmove with
  | rests _ now state' hnow haging hsound hown => exact haging.ordered (h lane)
  | admitted heap key spare limits now ready hready =>
    have hready' := hready.aging.ordered (h lane)
    rw [rate_book]
    split
    · exact hready'
    · exact hready'
  | sent front held back now state' hguards hsent hsound =>
    rw [hsent.rate]
    split
    · exact (h lane).record (by decide)
    · exact h lane
  | finished front held back outcome now state' hguards hlive hfinish hsound =>
    rw [hfinish.rate]
    split
    · exact h lane
    · exact h lane
  | released front held back hguards hdone => exact h lane

end BitRouter.Routing
