import BitRouter.Routing.Steps

/-!
# Moves of the world

An operation lets time pass, books a guard, or sends, finishes or releases one that
is held (`Moves`). The counters of the state are counts of the guards, every entry
with an owner is there, and the bytes are accounted for (`Owned`), in every state
that a run reaches.
-/

namespace BitRouter.Routing

variable {runtime : Runtime} {world world' : World} {op : Op} {lane : Lane} {key : Key}

/-- The latest sample, once an operation is completed. -/
def World.after (world : World) (op : Op) : ℕ := op.now?.elim world.latest (max world.latest)

theorem le_after : world.latest ≤ world.after op := by
  unfold World.after
  cases op.now? with
  | none => exact le_rfl
  | some now => exact le_max_left _ _

/-- What the guards are charged. -/
def heldBytes (guards : List Held) : ℕ := (guards.map fun held => held.guard.bytes).sum

def Held.sent (now : ℕ) (held : Held) : Held :=
  { held with guard := { held.guard with sent := some now } }

def Held.finished (held : Held) : Held :=
  { held with guard := { held.guard with finished := true } }

/-- **What an operation does to the world.** -/
inductive Moves (runtime : Runtime) (world : World) : Op → World → Prop where
  | rests (op : Op) (now : ℕ) (state' : State) (hnow : now ≤ world.after op)
      (haging : Aging now world.state state')
      (hsound : Sound runtime.layout (heldBytes world.guards) state')
      (hown : (∃ heap key spare limits, op = .admission heap key spare limits now)
        ∨ state' = world.state) :
      Moves runtime world op { world with state := state', latest := world.after op }
  | admitted (heap : Heap) (key : Key) (spare : ℕ) (limits : Limits) (now : ℕ) (ready : State)
      (hready : Ready runtime key limits now (heldBytes world.guards) world.state ready) :
      Moves runtime world (.admission heap key spare limits now)
        { world with
          state := (ready.book runtime.layout key (limits.providerKey key)
            (guardBytes runtime key spare limits) now).1
          guards := world.guards ++ [⟨(ready.book runtime.layout key (limits.providerKey key)
            (guardBytes runtime key spare limits) now).2, max world.latest now⟩]
          latest := max world.latest now }
  | sent (front : List Held) (held : Held) (back : List Held) (now : ℕ) (state' : State)
      (hguards : world.guards = front ++ held :: back)
      (hsent : SentFrom held.guard now world.state state')
      (hsound : Sound runtime.layout (heldBytes world.guards) state') :
      Moves runtime world (.sent front.length now)
        { state := state'
          guards := front ++ held.sent now :: back
          latest := max world.latest now
          sends := world.sends ++ [⟨held.guard.key, held.guard.provider, now⟩] }
  | finished (front : List Held) (held : Held) (back : List Held) (outcome : Outcome) (now : ℕ)
      (state' : State) (hguards : world.guards = front ++ held :: back)
      (hlive : held.guard.finished = false)
      (hfinish : FinishedFrom runtime.lastInstant held.guard outcome now world.state state')
      (hsound : Sound runtime.layout (heldBytes world.guards) state') :
      Moves runtime world (.finish front.length outcome now)
        { world with
          state := state'
          guards := front ++ held.finished :: back
          latest := max world.latest now }
  | released (front : List Held) (held : Held) (back : List Held)
      (hguards : world.guards = front ++ held :: back) (hdone : held.guard.finished = true) :
      Moves runtime world (.release front.length)
        { world with
          state := world.state.released held.guard
          guards := front ++ back }

/-! ## Positions -/

variable {held : Held}

theorem exists_split {guards : List Held} {i : ℕ} (h : guards[i]? = some held) :
    ∃ front back, guards = front ++ held :: back ∧ front.length = i := by
  obtain ⟨hi, rfl⟩ := List.getElem?_eq_some_iff.mp h
  refine ⟨guards.take i, guards.drop (i + 1), ?_, List.length_take_of_le hi.le⟩
  rw [← List.drop_eq_getElem_cons hi, List.take_append_drop]

theorem set_split (front back : List Held) (held held' : Held) :
    (front ++ held :: back).set front.length held' = front ++ held' :: back := by
  rw [List.set_append_right _ _ le_rfl, Nat.sub_self, List.set_cons_zero]

theorem eraseIdx_split (front back : List Held) (held : Held) :
    (front ++ held :: back).eraseIdx front.length = front ++ back := by
  rw [List.eraseIdx_append_of_length_le le_rfl, Nat.sub_self, List.eraseIdx_cons_zero]

/-! ## The invariant -/

/-- **The counters are counts of the guards.** -/
structure Owned (runtime : Runtime) (world : World) : Prop where
  sound : Sound runtime.layout (heldBytes world.guards) world.state
  active : ∀ lane, (world.state.rate lane).active = world.guards.countP (Held.active lane)
  pending : ∀ lane, (world.state.rate lane).pending = world.guards.countP (Held.pending lane)
  total : world.state.active = world.guards.countP (!·.guard.finished)

section

variable (h : Owned runtime world)

include h

theorem Owned.present (lane : Lane) (hheld : held ∈ world.guards)
    (hactive : held.active lane = true) : 0 < (world.state.rate lane).active := by
  rw [h.active]
  exact List.countP_pos_iff.mpr ⟨held, hheld, hactive⟩

theorem Owned.target {held : Held} (hheld : held ∈ world.guards)
    (hlive : held.guard.finished = false) : (world.state.targets.get held.guard.key).isSome := by
  have hpos := h.present (.target held.guard.key) hheld
    (by simp [Held.active, Admission.uses, hlive])
  by_contra hnone
  rw [Option.not_isSome_iff_eq_none] at hnone
  have hrate : world.state.rate (.target held.guard.key) = {} := by
    show (world.state.targets.get held.guard.key).elim {} Entry.rate = {}
    rw [hnone]
    rfl
  rw [hrate] at hpos
  exact absurd hpos (lt_irrefl 0)

theorem Owned.provider {held : Held} (hheld : held ∈ world.guards)
    (hlive : held.guard.finished = false) {provider : ProviderKey}
    (hprovider : held.guard.provider = some provider) :
    (world.state.providers.get provider).isSome := by
  have hpos := h.present (.provider provider) hheld
    (by simp [Held.active, Admission.uses, hlive, hprovider])
  by_contra hnone
  rw [Option.not_isSome_iff_eq_none] at hnone
  have hrate : world.state.rate (.provider provider) = {} := by
    show (world.state.providers.get provider).getD {} = {}
    rw [hnone]
    rfl
  rw [hrate] at hpos
  exact absurd hpos (lt_irrefl 0)

theorem moves_rests (op : Op) :
    Moves runtime world op { world with latest := world.after op } :=
  .rests op 0 world.state (Nat.zero_le _) (.refl 0 _) h.sound (.inr rfl)

/-- **Every operation is a move.** -/
theorem moves_step (op : Op) :
    Moves runtime world op (world.step runtime op) := by
  cases op with
  | admission heap key spare limits now =>
    unfold World.step
    dsimp only [Op.now?]
    have hspec : AdmitSpec runtime key spare limits now (heldBytes world.guards) world.state
        (admitAt runtime heap key spare limits now world.state) := admitAt_spec h.sound
    generalize admitAt runtime heap key spare limits now world.state = result at hspec
    cases hspec with
    | refused refusal state' haging hsound =>
      exact .rests (.admission heap key spare limits now) now state'
        (le_max_right _ _) haging hsound
        (.inl ⟨heap, key, spare, limits, rfl⟩)
    | admitted ready hready => exact .admitted heap key spare limits now ready hready
  | sent i now =>
    unfold World.step
    dsimp only [Op.now?]
    cases hheld : world.guards[i]? with
    | none => exact moves_rests h (.sent i now)
    | some held =>
      obtain ⟨front, back, hguards, rfl⟩ := exists_split hheld
      have hmem : held ∈ world.guards := List.mem_of_getElem? hheld
      dsimp only
      rcases sentAt_spec held.guard now h.sound (h.target hmem)
        (fun hlive provider => h.provider hmem hlive) with ⟨refusal, hrefused⟩
          | ⟨state', hok, hsent, hsound⟩
      · rw [hrefused]
        exact moves_rests h (.sent front.length now)
      · rw [hok]
        dsimp only
        rw [hguards, set_split]
        exact .sent front held back now state' hguards hsent hsound
  | finish i outcome now =>
    unfold World.step
    dsimp only [Op.now?]
    cases hheld : world.guards[i]? with
    | none => exact moves_rests h (.finish i outcome now)
    | some held =>
      obtain ⟨front, back, hguards, rfl⟩ := exists_split hheld
      dsimp only
      cases hlive : held.guard.finished with
      | true =>
        have hsame : finishAt runtime held.guard outcome now world.state
            = (world.state, held.guard) := if_pos hlive
        rw [hsame, hguards, set_split]
        rw [← hguards]
        exact moves_rests h (.finish front.length outcome now)
      | false =>
        obtain ⟨state', hok, hfinish, hsound⟩ :=
          finishAt_spec runtime outcome now h.sound hlive
        rw [hok, hguards, set_split]
        exact .finished front held back outcome now state' hguards hlive hfinish hsound
  | release i =>
    unfold World.step
    dsimp only [Op.now?]
    cases hheld : world.guards[i]? with
    | none => exact moves_rests h (.release i)
    | some held =>
      obtain ⟨front, back, hguards, rfl⟩ := exists_split hheld
      dsimp only
      split
      · next hdone =>
        rw [hguards, eraseIdx_split]
        exact .released front held back hguards hdone
      · exact moves_rests h (.release front.length)
  | order now => exact moves_rests h (.order now)

/-- An unfinished guard is finished. -/
theorem state_step_finish {i : ℕ} (outcome : Outcome) (now : ℕ)
    (hheld : world.guards[i]? = some held) (hlive : held.guard.finished = false) :
    FinishedFrom runtime.lastInstant held.guard outcome now world.state
      (world.step runtime (.finish i outcome now)).state := by
  obtain ⟨state', hok, hfinish, -⟩ := finishAt_spec runtime outcome now h.sound hlive
  unfold World.step
  dsimp only [Op.now?]
  rw [hheld]
  dsimp only
  rw [hok]
  exact hfinish

end

end BitRouter.Routing
