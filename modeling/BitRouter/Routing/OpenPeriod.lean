import BitRouter.Routing.Circuit

/-!
# Open periods

A circuit opens when a completion of its generation is the third failure, or that of
a probe that was sent and did not succeed (`Opens`, `opens_of_move`). From then on the
target stands there open until an admission ends the period (`OpenUntil.move`), unless
a completion moves its last touch so far back that it is reclaimed before: that is what
`Prompt` excludes. An admission sampled within the period is refused, if none that may
end the period has overtaken it (`Punctual`).
-/

namespace BitRouter.Routing

variable {runtime : Runtime} {world world' : World} {op : Op} {key : Key} {until' : ℕ}

/-! ## Openings -/

def Outcome.isSuccess : Outcome → Bool
  | .success _ => true
  | _ => false

/-- **A completion opens the circuit of a target.** -/
def Opens (world : World) (key : Key) : Op → Prop
  | .finish i outcome _ => ∃ held entry, world.guards[i]? = some held
      ∧ held.guard.finished = false ∧ held.guard.sent.isSome ∧ held.guard.key = key
      ∧ world.state.targets.get key = some entry ∧ held.guard.generation = entry.generation
      ∧ (entry.probe = some held.guard.id ∧ outcome.isSuccess = false
        ∨ entry.probe ≠ some held.guard.id ∧ outcome = .unavailable
          ∧ entry.failures + 1 = maxFailures)
  | _ => False

instance decidableOpens (world : World) (key : Key) (op : Op) : Decidable (Opens world key op) :=
  match op with
  | .finish i outcome _ => decidable_of_iff (∃ held ∈ world.guards[i]?,
      held.guard.finished = false ∧ held.guard.sent.isSome ∧ held.guard.key = key
        ∧ ∃ entry ∈ world.state.targets.get key, held.guard.generation = entry.generation
          ∧ (entry.probe = some held.guard.id ∧ outcome.isSuccess = false
            ∨ entry.probe ≠ some held.guard.id ∧ outcome = .unavailable
              ∧ entry.failures + 1 = maxFailures)) <| by
      constructor
      · rintro ⟨held, hheld, hlive, hsent, hkey, entry, hentry, hgen, hcause⟩
        exact ⟨held, entry, hheld, hlive, hsent, hkey, hentry, hgen, hcause⟩
      · rintro ⟨held, entry, hheld, hlive, hsent, hkey, hentry, hgen, hcause⟩
        exact ⟨held, hheld, hlive, hsent, hkey, entry, hentry, hgen, hcause⟩
  | .admission _ _ _ _ _ | .sent _ _ | .release _ | .order _ => inferInstanceAs (Decidable False)

/-- **An admission that is not overtaken**: if it is sampled within the open period of
its target, no admission that may end the period came between. -/
def Punctual (runtime : Runtime) (ops : List Op) : Op → Prop
  | .admission _ key _ _ now' => ∀ pre op post, ops = pre ++ op :: post →
      ∀ now ∈ op.now?, Opens (World.run runtime pre) key op → now' < now + openFor →
        Along (fun mid op' => ¬ MayEnd (World.run runtime (pre ++ op :: mid)) key
          (now + openFor) op') post
  | _ => True

instance decidablePunctual (runtime : Runtime) (ops : List Op) (op : Op) :
    Decidable (Punctual runtime ops op) :=
  match op with
  | .admission _ key _ _ now' => inferInstanceAs (Decidable (∀ pre op post,
      ops = pre ++ op :: post → ∀ now ∈ op.now?, Opens (World.run runtime pre) key op →
        now' < now + openFor →
          Along (fun mid op' => ¬ MayEnd (World.run runtime (pre ++ op :: mid)) key
            (now + openFor) op') post))
  | .sent _ _ | .finish _ _ _ | .release _ | .order _ => inferInstanceAs (Decidable True)

/-- **A target whose circuit is open until an instant**, and that is kept for as
long. -/
def OpenUntil (world : World) (key : Key) (until' : ℕ) : Prop :=
  ∃ entry, world.state.targets.get key = some entry ∧ entry.openUntil = some until'
    ∧ entry.probe = none ∧ until' ≤ entry.touched + fresh

theorem left_probe (guard : Admission) (now : ℕ) {entry : Entry}
    (h : entry.probe = none ∨ entry.probe = some guard.id) :
    (entry.left guard now).probe = none := by
  unfold Entry.left
  rcases h with hnone | hown
  · rw [hnone, if_neg (by simp)]
  · rw [if_pos hown]

variable {now : ℕ}

/-- **What opens leaves the circuit open** for the period. -/
theorem openUntil_of_opens (h : Circuits world) (howned : Owned runtime world)
    (hnow : op.now? = some now) (hinstant : now + openFor ≤ runtime.lastInstant)
    (hopens : Opens world key op) :
    OpenUntil (world.step runtime op) key (now + openFor) := by
  cases op with
  | finish i outcome now' =>
    obtain rfl := Option.some.inj hnow
    obtain ⟨held, entry, hheld, hlive, hsent, hkey, hentry, hgen, hcause⟩ := hopens
    obtain ⟨started, hstarted⟩ := Option.isSome_iff_exists.mp hsent
    have hmem : held ∈ world.guards := List.mem_of_getElem? hheld
    have hgoverned := h.governed key entry hentry
    have hfinish := state_step_finish howned outcome now' hheld hlive
    -- an open circuit has no other guard of its generation
    have hleft : (entry.left held.guard now').probe = none := by
      refine left_probe held.guard now' ?_
      by_contra hother
      rw [not_or] at hother
      obtain ⟨id, hid⟩ := Option.ne_none_iff_exists'.mp hother.1
      exact hother.2 (hgoverned.current (hgoverned.owner id hid).1 held hmem hlive hkey hgen)
    have hperiod : now' + openFor ≤ now' + fresh := Nat.add_le_add_left (by decide) _
    refine ⟨entry.finish runtime.lastInstant held.guard outcome now', ?_, ?_⟩
    · rw [hfinish.target, if_pos hkey, hentry]
      rfl
    · rw [finish_counted _ _ hstarted hgen]
      rcases hcause with ⟨hprobe, hfailed⟩ | ⟨-, rfl, hthird⟩
      · have hown : decide (entry.probe = some held.guard.id) = true := decide_eq_true hprobe
        rw [hown]
        cases outcome with
        | success output => cases hfailed
        | unavailable =>
          unfold Entry.complete
          rw [if_pos (.inl rfl), reopen_of_le hinstant]
          exact ⟨rfl, hleft, hperiod⟩
        | neutral | unknown =>
          unfold Entry.complete
          rw [if_pos rfl, reopen_of_le hinstant]
          exact ⟨rfl, hleft, hperiod⟩
      · have hfailures : maxFailures ≤ min ((entry.left held.guard now').failures + 1) u32Max := by
          show maxFailures ≤ min (entry.failures + 1) u32Max
          rw [hthird]
          decide
        unfold Entry.complete
        rw [if_pos (.inr hfailures), reopen_of_le hinstant]
        exact ⟨rfl, hleft, hperiod⟩
  | admission heap key spare limits now => exact absurd hopens id
  | sent i now => exact absurd hopens id
  | release i => exact absurd hopens id
  | order now => exact absurd hopens id

/-! ## The period -/

/-- A target that is not reclaimed keeps its circuit. -/
theorem Aging.openUntil {now : ℕ} {state state' : State} (haging : Aging now state state')
    {entry : Entry} (hentry : state.targets.get key = some entry)
    (hnow : now < entry.touched + fresh) :
    ∃ entry', state'.targets.get key = some entry' ∧ entry'.openUntil = entry.openUntil
      ∧ entry'.probe = entry.probe ∧ entry'.touched = entry.touched := by
  have haged := haging.target key
  rw [hentry] at haged
  generalize state'.targets.get key = after at haged
  cases haged with
  | same => exact ⟨entry, rfl, rfl, rfl, rfl⟩
  | expired => exact ⟨entry.expire now, rfl, rfl, rfl, rfl⟩
  | evicted _ hgone =>
    simp only [Entry.evictable, Bool.and_eq_true, decide_eq_true_eq] at hgone
    have hlate : fresh ≤ now - entry.touched := hgone.2
    unfold fresh second at hnow hlate
    omega

/-- An admission that does not end the period is sampled within it, or is of another
target and cannot reclaim this one. -/
theorem not_mayEnd_cases {heap : Heap} {key' : Key} {spare : ℕ} {limits : Limits} {entry : Entry}
    (hend : ¬ MayEnd world key until' (.admission heap key' spare limits now))
    (hentry : world.state.targets.get key = some entry) (hkept : until' ≤ entry.touched + fresh) :
    now < entry.touched + fresh ∧ (key' = key → now < until') := by
  by_cases hnow : now < until'
  · exact ⟨hnow.trans_le hkept, fun _ => hnow⟩
  · have hpast : until' ≤ now := not_lt.mp hnow
    refine ⟨not_le.mp fun hlate => hend ⟨hpast, .inr ⟨entry, hentry, hlate⟩⟩, fun hkey => ?_⟩
    exact absurd ⟨hpast, .inl hkey⟩ hend

/-- **An open circuit stays open**, until an admission ends the period. -/
theorem OpenUntil.move (hopen : OpenUntil world key until') (h : Circuits world)
    (hprompt : Prompt world op) (hend : ¬ MayEnd world key until' op)
    (hmove : Moves runtime world op world') : OpenUntil world' key until' := by
  obtain ⟨entry, hentry, huntil, hprobe, hkept⟩ := hopen
  cases hmove with
  | rests _ now state' hle haging hsound hown =>
    rcases hown with ⟨heap, key', spare, limits, rfl⟩ | hsame
    · obtain ⟨entry', hentry', hopen', hprobe', htouched⟩ :=
        haging.openUntil hentry (not_mayEnd_cases hend hentry hkept).1
      exact ⟨entry', hentry', hopen'.trans huntil, hprobe'.trans hprobe, htouched ▸ hkept⟩
    · exact ⟨entry, hsame ▸ hentry, huntil, hprobe, hkept⟩
  | admitted heap key' spare limits now ready hready =>
    obtain ⟨hfresh, hwithin⟩ := not_mayEnd_cases hend hentry hkept
    obtain ⟨entry', hentry', hopen', hprobe', htouched⟩ := hready.aging.openUntil hentry hfresh
    refine ⟨entry', ?_, hopen'.trans huntil, hprobe'.trans hprobe, htouched ▸ hkept⟩
    rw [get_book, if_neg]
    · exact hentry'
    · -- an open target is not admitted to
      rintro rfl
      exact absurd ((hready.closed entry hentry).2 until' huntil) (not_le.mpr (hwithin rfl))
  | sent front held back now state' hguards hsent hsound =>
    refine ⟨if held.guard.key = key then { entry with rate := entry.rate.sent (tickOf now) }
      else entry, ?_, ?_⟩
    · rw [hsent.target, hentry]
      split <;> rfl
    · split <;> exact ⟨huntil, hprobe, hkept⟩
  | finished front held back outcome now state' hguards hlive hfinish hsound =>
    have hmem : held ∈ world.guards := hguards ▸ mem_split.mpr (.inl rfl)
    by_cases hkey : held.guard.key = key
    · subst hkey
      -- the guard is of an older generation: nothing of the circuit changes
      have hold : held.guard.generation ≠ entry.generation := by
        intro hgen
        have hown := (h.governed _ entry hentry).current
          (by rw [huntil]; rfl) held hmem hlive rfl hgen
        rw [hprobe] at hown
        cases hown
      refine ⟨entry.left held.guard now, ?_, huntil, left_probe _ _ (.inl hprobe), ?_⟩
      · rw [hfinish.target, if_pos rfl, hentry, Option.map_some, finish_uncounted _ _ (.inr hold)]
      · refine hprompt held ?_ hlive entry hentry until' huntil
        rw [hguards, List.getElem?_append_right le_rfl, Nat.sub_self]
        rfl
    · refine ⟨entry, ?_, huntil, hprobe, hkept⟩
      rw [hfinish.target, if_neg hkey]
      exact hentry
  | released front held back hguards hdone => exact ⟨entry, hentry, huntil, hprobe, hkept⟩

/-- **An open circuit refuses.** -/
theorem OpenUntil.refused (hopen : OpenUntil world key until') (howned : Owned runtime world)
    {now : ℕ} (hnow : now < until') (heap : Heap) (spare : ℕ) (limits : Limits) :
    ∃ refusal, (admitAt runtime heap key spare limits now world.state).2 = .error refusal := by
  obtain ⟨entry, hentry, huntil, -, -⟩ := hopen
  have hspec : AdmitSpec runtime key spare limits now (heldBytes world.guards) world.state
      (admitAt runtime heap key spare limits now world.state) := admitAt_spec howned.sound
  generalize admitAt runtime heap key spare limits now world.state = result at hspec
  cases hspec with
  | refused refusal state' haging hsound => exact ⟨refusal, rfl⟩
  | admitted ready hready =>
    exact absurd ((hready.closed entry hentry).2 until' huntil) (not_le.mpr hnow)

/-! ## What opens -/

/-- What a completion leaves open was open, or was opened by it. -/
theorem opens_of_finish (h : Circuits world) {i : ℕ} {held : Held} {outcome : Outcome}
    (hheld : world.guards[i]? = some held) (hlive : held.guard.finished = false) {entry : Entry}
    (hentry : world.state.targets.get held.guard.key = some entry)
    (hinstant : now + openFor ≤ runtime.lastInstant)
    (hopen : (entry.finish runtime.lastInstant held.guard outcome now).openUntil = some until') :
    entry.openUntil = some until'
      ∨ Opens world held.guard.key (.finish i outcome now) ∧ until' = now + openFor := by
  have hmem : held ∈ world.guards := List.mem_of_getElem? hheld
  have hgoverned := h.governed _ entry hentry
  by_cases huncounted : held.guard.sent = none ∨ held.guard.generation ≠ entry.generation
  · rw [finish_uncounted _ _ huncounted] at hopen
    exact .inl hopen
  rw [not_or, not_not] at huncounted
  obtain ⟨started, hsent⟩ := Option.ne_none_iff_exists'.mp huncounted.1
  rw [finish_counted _ _ hsent huncounted.2] at hopen
  have hopens : (entry.probe = some held.guard.id ∧ outcome.isSuccess = false
      ∨ entry.probe ≠ some held.guard.id ∧ outcome = .unavailable
        ∧ entry.failures + 1 = maxFailures) →
      Opens world held.guard.key (.finish i outcome now) := fun hcause =>
    ⟨held, entry, hheld, hlive, by rw [hsent]; rfl, rfl, hentry, huncounted.2, hcause⟩
  cases outcome with
  | success output =>
    unfold Entry.complete at hopen
    rw [(sample_same started output _).2.2.1] at hopen
    cases hopen
  | unavailable =>
    unfold Entry.complete at hopen
    dsimp only at hopen
    split at hopen
    · next hcause =>
      rw [reopen_of_le hinstant] at hopen
      refine .inr ⟨hopens ?_, (Option.some.inj hopen).symm⟩
      by_cases hown : entry.probe = some held.guard.id
      · exact .inl ⟨hown, rfl⟩
      · refine .inr ⟨hown, rfl, ?_⟩
        have hclosed : entry.openUntil = none := by
          by_contra hsome
          refine hown (hgoverned.current ?_ held hmem hlive rfl huncounted.2)
          exact Option.isSome_iff_ne_none.mpr hsome
        have hfew := hgoverned.failures hclosed
        have hmany : maxFailures ≤ min (entry.failures + 1) u32Max :=
          hcause.resolve_left (by simpa using hown)
        omega
    · exact .inl hopen
  | neutral | unknown =>
    unfold Entry.complete at hopen
    dsimp only at hopen
    split at hopen
    · next hown =>
      rw [reopen_of_le hinstant] at hopen
      exact .inr ⟨hopens (.inl ⟨of_decide_eq_true hown, rfl⟩), (Option.some.inj hopen).symm⟩
    · exact .inl hopen

theorem Aging.openUntil_of {state state' : State} (haging : Aging now state state')
    {entry' : Entry} (hentry : state'.targets.get key = some entry') :
    ∃ entry, state.targets.get key = some entry ∧ entry'.openUntil = entry.openUntil := by
  have haged := haging.target key
  rw [hentry] at haged
  generalize state.targets.get key = before at haged
  cases haged with
  | same => exact ⟨entry', rfl, rfl⟩
  | expired entry => exact ⟨entry, rfl, rfl⟩

/-- **Only an opening opens a circuit.** -/
theorem opens_of_move (h : Circuits world) (hinstant : Representable runtime op)
    (hmove : Moves runtime world op world') {entry' : Entry}
    (hentry' : world'.state.targets.get key = some entry')
    (hopen : entry'.openUntil = some until') :
    (∃ entry, world.state.targets.get key = some entry ∧ entry.openUntil = some until')
      ∨ Opens world key op ∧ ∃ now, op.now? = some now ∧ until' = now + openFor := by
  cases hmove with
  | rests _ now state' hle haging hsound hown =>
    obtain ⟨entry, hentry, hsame⟩ := haging.openUntil_of hentry'
    exact .inl ⟨entry, hentry, hsame ▸ hopen⟩
  | admitted heap key' spare limits now ready hready =>
    rw [get_book] at hentry'
    split at hentry'
    · next heq =>
      subst heq
      obtain rfl := Option.some.inj hentry'
      cases hbefore : ready.targets.get key' with
      | none =>
        rw [hbefore] at hopen
        cases hopen
      | some before =>
        rw [hbefore] at hopen
        obtain ⟨entry, hentry, hsame⟩ := hready.aging.openUntil_of hbefore
        exact .inl ⟨entry, hentry, hsame ▸ hopen⟩
    · obtain ⟨entry, hentry, hsame⟩ := hready.aging.openUntil_of hentry'
      exact .inl ⟨entry, hentry, hsame ▸ hopen⟩
  | sent front held back now state' hguards hsent hsound =>
    rw [hsent.target] at hentry'
    split at hentry'
    · obtain ⟨entry, hentry, rfl⟩ := Option.map_eq_some_iff.mp hentry'
      exact .inl ⟨entry, hentry, hopen⟩
    · exact .inl ⟨entry', hentry', hopen⟩
  | finished front held back outcome now state' hguards hlive hfinish hsound =>
    rw [hfinish.target] at hentry'
    split at hentry'
    · next hkey =>
      subst hkey
      obtain ⟨entry, hentry, rfl⟩ := Option.map_eq_some_iff.mp hentry'
      have hheld : world.guards[front.length]? = some held := by
        rw [hguards, List.getElem?_append_right le_rfl, Nat.sub_self]
        rfl
      rcases opens_of_finish h hheld hlive hentry (hinstant now rfl) hopen with hbefore | hopens
      · exact .inl ⟨entry, hentry, hbefore⟩
      · exact .inr ⟨hopens.1, now, rfl, hopens.2⟩
    · exact .inl ⟨entry', hentry', hopen⟩
  | released front held back hguards hdone => exact .inl ⟨entry', hentry', hopen⟩

end BitRouter.Routing
