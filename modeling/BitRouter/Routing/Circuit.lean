import BitRouter.Routing.Owners

/-!
# Circuits

A circuit that is open has no unfinished guard of its generation but the probe, and a
circuit that is closed has seen fewer failures than open it (`Governed`). So a
completion of an older generation finds nothing to change, and every opening is the
third failure of a generation or a probe that failed.
-/

namespace BitRouter.Routing

variable {runtime : Runtime} {world world' : World} {op : Op} {key : Key} {entry : Entry}
variable {guard : Admission} {outcome : Outcome} {now : ℕ}

/-! ## Completions -/

def Entry.left (guard : Admission) (now : ℕ) (entry : Entry) : Entry :=
  { entry with
    rate := entry.rate.finish guard.sent.isSome
    touched := now
    probe := if entry.probe = some guard.id then none else entry.probe }

theorem finish_uncounted (lastInstant : ℕ) (outcome : Outcome)
    (h : guard.sent = none ∨ guard.generation ≠ entry.generation) :
    entry.finish lastInstant guard outcome now = entry.left guard now := by
  have hprobe : (if decide (entry.probe = some guard.id) = true then none else entry.probe)
      = if entry.probe = some guard.id then none else entry.probe := by
    simp only [decide_eq_true_eq]
  unfold Entry.finish Entry.left
  dsimp only
  rw [hprobe]
  cases hsent : guard.sent with
  | none => rfl
  | some started =>
    rcases h with hnone | hold
    · rw [hsent] at hnone
      cases hnone
    · exact if_pos hold

theorem finish_counted (lastInstant : ℕ) (outcome : Outcome) {started : ℕ}
    (hsent : guard.sent = some started) (hgen : guard.generation = entry.generation) :
    entry.finish lastInstant guard outcome now = (entry.left guard now).complete lastInstant now
      started (decide (entry.probe = some guard.id)) outcome := by
  have hprobe : (if decide (entry.probe = some guard.id) = true then none else entry.probe)
      = if entry.probe = some guard.id then none else entry.probe := by
    simp only [decide_eq_true_eq]
  unfold Entry.finish Entry.left
  dsimp only
  rw [hprobe, hsent]
  exact if_neg (not_not.mpr hgen)

theorem reopen_of_le {lastInstant : ℕ} (h : now + openFor ≤ lastInstant) (entry : Entry) :
    entry.reopen lastInstant now = { entry with openUntil := some (now + openFor) } := if_pos h

theorem sample_same (started : ℕ) (output : Option UInt64) (entry : Entry) :
    (entry.sample now started output).failures = entry.failures
      ∧ (entry.sample now started output).generation = entry.generation
      ∧ (entry.sample now started output).openUntil = entry.openUntil
      ∧ (entry.sample now started output).probe = entry.probe
      ∧ (entry.sample now started output).touched = entry.touched := by
  unfold Entry.sample
  dsimp only
  split <;> exact ⟨rfl, rfl, rfl, rfl, rfl⟩

/-! ## The invariant -/

/-- **A target and its owners.** -/
structure Governed (guards : List Held) (next : ℕ) (key : Key) (entry : Entry) : Prop where
  owner : ∀ id, entry.probe = some id → entry.openUntil.isSome ∧
    ∃ held ∈ guards, held.guard.id = id ∧ held.guard.finished = false ∧ held.guard.key = key
      ∧ held.guard.generation = entry.generation
  current : entry.openUntil.isSome → ∀ held ∈ guards, held.guard.finished = false →
    held.guard.key = key → held.guard.generation = entry.generation →
      entry.probe = some held.guard.id
  past : ∀ held ∈ guards, held.guard.finished = false → held.guard.key = key →
    held.guard.generation ≤ entry.generation
  failures : entry.openUntil = none → entry.failures < maxFailures
  counted : entry.generation + entry.rate.active ≤ next

/-- **Guards are numbered, and every target is governed.** -/
structure Circuits (world : World) : Prop where
  ids : (world.guards.map (·.guard.id)).Nodup
  numbered : ∀ held ∈ world.guards, held.guard.id ≤ world.state.next
  next : world.state.next ≤ u64Max
  governed : ∀ key entry, world.state.targets.get key = some entry →
    Governed world.guards world.state.next key entry

theorem Circuits.init : Circuits {} where
  ids := List.nodup_nil
  numbered held hheld := absurd hheld List.not_mem_nil
  next := Nat.zero_le _
  governed key entry hentry := by cases hentry

variable {guards : List Held} {next : ℕ}

theorem Governed.of_same {entry' : Entry} (h : Governed guards next key entry)
    (hprobe : entry'.probe = entry.probe) (hopen : entry'.openUntil = entry.openUntil)
    (hgen : entry'.generation = entry.generation) (hfailures : entry'.failures = entry.failures)
    (hactive : entry'.rate.active = entry.rate.active) : Governed guards next key entry' where
  owner := hprobe ▸ hopen ▸ hgen ▸ h.owner
  current := hprobe ▸ hopen ▸ hgen ▸ h.current
  past := hgen ▸ h.past
  failures := hfailures ▸ hopen ▸ h.failures
  counted := hactive ▸ hgen ▸ h.counted

theorem Aging.governed {state state' : State} (haging : Aging now state state')
    (h : ∀ entry, state.targets.get key = some entry → Governed guards next key entry)
    (hentry : state'.targets.get key = some entry) : Governed guards next key entry := by
  have haged := haging.target key
  rw [hentry] at haged
  generalize state.targets.get key = before at haged h
  cases haged with
  | same => exact h entry rfl
  | expired before => exact (h before rfl).of_same rfl rfl rfl rfl rfl

theorem Governed.mono {guards' : List Held} {next' : ℕ} (h : Governed guards next key entry)
    (hnext : next ≤ next')
    (hnew : ∀ held ∈ guards', held.guard.finished = false → held.guard.key = key →
      ∃ held₀ ∈ guards, held₀.guard.id = held.guard.id ∧ held₀.guard.finished = false
        ∧ held₀.guard.key = key ∧ held₀.guard.generation = held.guard.generation)
    (hold : ∀ held ∈ guards, held.guard.finished = false → held.guard.key = key →
      ∃ held' ∈ guards', held'.guard.id = held.guard.id ∧ held'.guard.finished = false
        ∧ held'.guard.key = key ∧ held'.guard.generation = held.guard.generation) :
    Governed guards' next' key entry where
  owner id hid := by
    obtain ⟨hopen, held, hheld, rfl, hlive, hkey, hgen⟩ := h.owner id hid
    obtain ⟨held', hheld', hsame, hlive', hkey', hgen'⟩ := hold held hheld hlive hkey
    exact ⟨hopen, held', hheld', hsame, hlive', hkey', hgen'.trans hgen⟩
  current hopen held hheld hlive hkey hgen := by
    obtain ⟨held₀, hheld₀, hsame, hlive₀, hkey₀, hgen₀⟩ := hnew held hheld hlive hkey
    rw [← hsame]
    exact h.current hopen held₀ hheld₀ hlive₀ hkey₀ (hgen₀.trans hgen)
  past held hheld hlive hkey := by
    obtain ⟨held₀, hheld₀, -, hlive₀, hkey₀, hgen₀⟩ := hnew held hheld hlive hkey
    exact hgen₀ ▸ h.past held₀ hheld₀ hlive₀ hkey₀
  failures := h.failures
  counted := h.counted.trans hnext

/-! ## Finishing -/

section Completed

variable {others : List Held} {held : Held}

/-- The entry with its guard gone is governed by the guards that are left, before the
completion is counted. -/
theorem Governed.left (h : Governed guards next key entry)
    (hothers : ∀ other ∈ others, other.guard.finished = false →
      other ∈ guards ∧ other.guard.id ≠ held.guard.id)
    (hrest : ∀ other ∈ guards, other.guard.id ≠ held.guard.id → other ∈ others)
    (hactive : 0 < entry.rate.active) :
    Governed others next key (entry.left held.guard now) where
  owner id hid := by
    unfold Entry.left at hid
    split at hid
    · cases hid
    · next hne =>
      obtain ⟨hopen, other, hother, rfl, hlive, hkey, hgen⟩ := h.owner id hid
      refine ⟨hopen, other, hrest other hother fun hsame => hne ?_, rfl, hlive, hkey, hgen⟩
      rw [hid, hsame]
  current hopen other hother hlive hkey hgen := by
    obtain ⟨hguard, hne⟩ := hothers other hother hlive
    have hprobe := h.current hopen other hguard hlive hkey hgen
    unfold Entry.left
    rw [hprobe, if_neg fun heq => hne (Option.some.inj heq)]
  past other hother hlive hkey := h.past other (hothers other hother hlive).1 hlive hkey
  failures := h.failures
  counted := by
    show entry.generation + (entry.rate.active - 1) ≤ next
    have := h.counted
    omega

/-- An open circuit has no guard of its generation but the probe, so none is left. -/
theorem Governed.probe_left (h : Governed guards next key entry) (hheld : held ∈ guards)
    (hlive : held.guard.finished = false) (hkey : held.guard.key = key)
    (hgen : held.guard.generation = entry.generation) :
    (entry.left held.guard now).probe = none := by
  unfold Entry.left
  split
  · rfl
  · next hne =>
    by_contra hsome
    obtain ⟨id, hid⟩ := Option.ne_none_iff_exists'.mp hsome
    exact hne (h.current (h.owner id hid).1 held hheld hlive hkey hgen)

/-- **A circuit is opened** by its own probe, or under a generation nobody has yet. -/
theorem Governed.opened {generation failures until' : ℕ} (h : Governed guards next key entry)
    (hothers : ∀ other ∈ others, other.guard.finished = false →
      other ∈ guards ∧ other.guard.id ≠ held.guard.id)
    (hprobe : (entry.left held.guard now).probe = none) (hactive : 0 < entry.rate.active)
    (hnew : generation = entry.generation ∧ entry.probe = some held.guard.id
      ∨ generation = entry.generation + 1) :
    Governed others next key { entry.left held.guard now with
      failures := failures, generation := generation, openUntil := some until' } where
  owner id hid := by
    have hsome : (entry.left held.guard now).probe = some id := hid
    rw [hprobe] at hsome
    cases hsome
  current _ other hother hlive hkey hgen := by
    obtain ⟨hguard, hne⟩ := hothers other hother hlive
    have hpast := h.past other hguard hlive hkey
    rcases hnew with ⟨hsame, hown⟩ | hnewer
    · have hother' := h.current (h.owner _ hown).1 other hguard hlive hkey (hgen.trans hsame)
      rw [hown] at hother'
      exact absurd (Option.some.inj hother').symm hne
    · have hgen' : other.guard.generation = generation := hgen
      omega
  past other hother hlive hkey := by
    have hpast := h.past other (hothers other hother hlive).1 hlive hkey
    show other.guard.generation ≤ generation
    omega
  failures hnone := absurd hnone (Option.some_ne_none _)
  counted := by
    have := h.counted
    show generation + (entry.rate.active - 1) ≤ next
    omega

/-- A success closes the circuit. -/
theorem Governed.succeeded {started : ℕ} {output : Option UInt64}
    (h : Governed others next key (entry.left held.guard now))
    (hprobe : (entry.left held.guard now).probe = none) :
    Governed others next key (Entry.sample now started output
      { entry.left held.guard now with failures := 0, openUntil := none }) := by
  obtain ⟨hfailures, hgeneration, hopen, hprobe', -⟩ := @sample_same now started output
    { entry.left held.guard now with failures := 0, openUntil := none }
  refine ⟨fun id hid => ?_, fun hsome => ?_, fun other hother hlive hkey => ?_, fun _ => ?_, ?_⟩
  · have hsome : (entry.left held.guard now).probe = some id := hprobe'.symm.trans hid
    rw [hprobe] at hsome
    cases hsome
  · rw [hopen] at hsome
    cases hsome
  · rw [hgeneration]
    exact h.past other hother hlive hkey
  · rw [hfailures]
    exact Nat.succ_pos 2
  · rw [hgeneration, rate_sample]
    exact h.counted

/-- **A completion keeps its target governed.** The guard that is finished is left
out of the guards. -/
theorem Governed.finish (h : Governed guards next key entry) (hheld : held ∈ guards)
    (hlive : held.guard.finished = false) (hkey : held.guard.key = key)
    (hothers : ∀ other ∈ others, other.guard.finished = false →
      other ∈ guards ∧ other.guard.id ≠ held.guard.id)
    (hrest : ∀ other ∈ guards, other.guard.id ≠ held.guard.id → other ∈ others)
    (hactive : 0 < entry.rate.active) (hnext : next ≤ u64Max)
    (hinstant : now + openFor ≤ runtime.lastInstant) :
    Governed others next key (entry.finish runtime.lastInstant held.guard outcome now) := by
  have hleft : Governed others next key (entry.left held.guard now) :=
    h.left hothers hrest hactive
  by_cases huncounted : held.guard.sent = none ∨ held.guard.generation ≠ entry.generation
  · rw [finish_uncounted _ _ huncounted]
    exact hleft
  rw [not_or, not_not] at huncounted
  obtain ⟨started, hsent⟩ := Option.ne_none_iff_exists'.mp huncounted.1
  have hgen := huncounted.2
  rw [finish_counted _ _ hsent hgen]
  have hprobe : (entry.left held.guard now).probe = none := h.probe_left hheld hlive hkey hgen
  cases outcome with
  | success output => exact hleft.succeeded hprobe
  | unavailable =>
    unfold Entry.complete
    dsimp only
    split
    · have hgeneration : min (entry.generation + 1) u64Max = entry.generation + 1 := by
        have := h.counted
        omega
      rw [reopen_of_le hinstant]
      exact h.opened hothers hprobe hactive (.inr hgeneration)
    · next hclosed =>
      rw [not_or, not_le, decide_eq_true_eq] at hclosed
      exact ⟨hleft.owner, hleft.current, hleft.past, fun _ => hclosed.2, hleft.counted⟩
  | neutral | unknown =>
    unfold Entry.complete
    dsimp only
    split
    · next hown =>
      rw [reopen_of_le hinstant]
      exact h.opened hothers hprobe hactive (.inl ⟨rfl, of_decide_eq_true hown⟩)
    · exact hleft

end Completed

/-! ## Admitting -/

/-- A target that is new is governed where nobody owns it. -/
theorem Governed.new (hnobody : ∀ held ∈ guards, held.guard.finished = false →
    held.guard.key ≠ key) : Governed guards next key (Entry.new now) where
  owner id hid := by cases hid
  current hopen := by cases hopen
  past held hheld hlive hkey := absurd hkey (hnobody held hheld hlive)
  failures _ := Nat.succ_pos 2
  counted := Nat.zero_le _

/-- **An admission keeps its target governed**, where no probe was out. -/
theorem Governed.admitted {held : Held} (h : Governed guards next key entry)
    (hprobe : entry.probe = none) (hid : held.guard.id = next + 1)
    (hlive : held.guard.finished = false) (hkey : held.guard.key = key)
    (hgen : held.guard.generation = entry.generation) :
    Governed (guards ++ [held]) (next + 1) key (entry.admitOne (next + 1) now) where
  owner id hprobe' := by
    unfold Entry.admitOne at hprobe'
    split at hprobe'
    · next hopen =>
      obtain rfl := Option.some.inj hprobe'
      exact ⟨hopen, held, List.mem_append_right _ (List.mem_singleton_self _), hid, hlive, hkey,
        hgen⟩
    · rw [hprobe] at hprobe'
      cases hprobe'
  current hopen other hother hlive' hkey' hgen' := by
    have hopened : entry.openUntil.isSome := hopen
    rcases List.mem_append.mp hother with hold | hnew
    · have hother' := h.current hopened other hold hlive' hkey' hgen'
      rw [hprobe] at hother'
      cases hother'
    · rw [List.mem_singleton.mp hnew, hid]
      exact if_pos hopened
  past other hother hlive' hkey' := by
    rcases List.mem_append.mp hother with hold | hnew
    · exact h.past other hold hlive' hkey'
    · rw [List.mem_singleton.mp hnew]
      exact hgen.le
  failures := h.failures
  counted := by
    show entry.generation + (entry.rate.active + 1) ≤ next + 1
    have := h.counted
    omega

/-! ## Moves -/

variable {held : Held}

theorem Owned.owners (h : Owned runtime world) {entry : Entry}
    (hentry : world.state.targets.get key = some entry) (hheld : held ∈ world.guards)
    (hlive : held.guard.finished = false) (hkey : held.guard.key = key) :
    0 < entry.rate.active := by
  have hpos := h.present (.target key) hheld
    (by rw [active_of_live held hlive, Admission.uses, decide_eq_true hkey])
  have hrate : world.state.rate (.target key) = entry.rate := by
    show (world.state.targets.get key).elim {} Entry.rate = _
    rw [hentry]
    rfl
  rwa [hrate] at hpos

theorem nodup_split {front back : List Held}
    (h : ((front ++ held :: back).map (·.guard.id)).Nodup) :
    ((front ++ back).map (·.guard.id)).Nodup
      ∧ ∀ other ∈ front ++ back, other.guard.id ≠ held.guard.id := by
  rw [List.map_append, List.map_cons, List.nodup_middle] at h
  obtain ⟨hnew, hrest⟩ := List.nodup_cons.mp h
  rw [← List.map_append] at hnew hrest
  exact ⟨hrest, fun other hother hsame => hnew (hsame ▸ List.mem_map_of_mem hother)⟩

theorem mem_split {front back : List Held} {other : Held} :
    other ∈ front ++ held :: back ↔ other = held ∨ other ∈ front ++ back := by
  rw [List.mem_append, List.mem_cons, List.mem_append]
  tauto

section Cases

variable {now latest : ℕ} {state' : State} {front back : List Held}

/-- Time alone ends no circuit that is open. -/
theorem Circuits.rests (h : Circuits world) (haging : Aging now world.state state') :
    Circuits { world with state := state', latest := latest } := by
  refine ⟨h.ids, ?_, ?_, fun key entry hentry => ?_⟩
  · rw [haging.next]
    exact h.numbered
  · rw [haging.next]
    exact h.next
  · rw [haging.next]
    exact haging.governed (h.governed key) hentry

/-- The target of an admission was governed and had no probe out: nobody owns one that
is not there, and the circuit of one that is was found closed, or its time over. -/
theorem Circuits.ready {limits : Limits} {ready : State} (h : Circuits world)
    (howned : Owned runtime world)
    (hready : Ready runtime key limits now (heldBytes world.guards) world.state ready) :
    Governed world.guards world.state.next key ((ready.targets.get key).getD (Entry.new now))
      ∧ ((ready.targets.get key).getD (Entry.new now)).probe = none := by
  cases hbefore : ready.targets.get key with
  | none =>
    refine ⟨Governed.new fun held hheld hlive hkey => ?_, rfl⟩
    have hactive := (hready.aging.counts (.target key)).1
    have hzero : ready.rate (.target key) = {} := by
      show (ready.targets.get key).elim {} Entry.rate = {}
      rw [hbefore]
      rfl
    have hpos := howned.present (.target key) hheld
      (by rw [active_of_live held hlive, Admission.uses, decide_eq_true hkey])
    rw [hzero] at hactive
    rw [← hactive] at hpos
    exact absurd hpos (lt_irrefl 0)
  | some before =>
    refine ⟨hready.aging.governed (h.governed key) hbefore, ?_⟩
    have haged := hready.aging.target key
    have hclosed := hready.closed
    rw [hbefore] at haged
    generalize world.state.targets.get key = first at haged hclosed
    cases haged with
    | same => exact (hclosed before rfl).1
    | expired first => exact (hclosed first rfl).1

/-- **A booked admission keeps targets governed**: its guard has a number of its own. -/
theorem Circuits.admitted {limits : Limits} {ready : State} {bytes : ℕ} (h : Circuits world)
    (howned : Owned runtime world)
    (hready : Ready runtime key limits now (heldBytes world.guards) world.state ready) :
    Circuits { world with
      state := (ready.book runtime.layout key (limits.providerKey key) bytes now).1
      guards := world.guards
        ++ [⟨(ready.book runtime.layout key (limits.providerKey key) bytes now).2, latest⟩]
      latest := latest } := by
  have hnumber : ready.next = world.state.next := hready.aging.next
  refine ⟨?_, fun held hheld => ?_, ?_, fun key' entry hentry => ?_⟩
  · rw [List.map_append, List.map_singleton]
    refine List.nodup_append.mpr ⟨h.ids, List.nodup_singleton _, fun id hid id' hid' => ?_⟩
    obtain ⟨held, hheld, rfl⟩ := List.mem_map.mp hid
    obtain rfl := List.mem_singleton.mp hid'
    have hle := h.numbered held hheld
    show held.guard.id ≠ ready.next + 1
    omega
  · show held.guard.id ≤ ready.next + 1
    rcases List.mem_append.mp hheld with hold | hnew
    · exact (h.numbered held hold).trans (hnumber ▸ Nat.le_succ _)
    · rw [List.mem_singleton.mp hnew]
      exact le_rfl
  · exact hready.next
  · rw [get_book] at hentry
    show Governed (world.guards ++ [_]) (ready.next + 1) key' entry
    split at hentry
    · next heq =>
      subst heq
      obtain rfl := Option.some.inj hentry
      obtain ⟨hgoverned, hprobe⟩ := h.ready howned hready
      exact (hnumber ▸ hgoverned).admitted hprobe rfl rfl rfl rfl
    · next hne =>
      refine (hready.aging.governed (h.governed key') hentry).mono
        (hnumber ▸ Nat.le_succ _) (fun held hheld hlive hkey => ?_)
        fun held hheld hlive hkey => ⟨held, List.mem_append_left _ hheld, rfl, hlive, hkey, rfl⟩
      rcases List.mem_append.mp hheld with hold | hnew
      · exact ⟨held, hold, rfl, hlive, hkey, rfl⟩
      · rw [List.mem_singleton.mp hnew] at hkey
        exact absurd hkey hne

/-- Only the counters know that a request was sent. -/
theorem Circuits.sent {sends : List Send} (h : Circuits world)
    (hguards : world.guards = front ++ held :: back)
    (hsent : SentFrom held.guard now world.state state') :
    Circuits { state := state', guards := front ++ held.sent now :: back, latest := latest
               sends := sends } := by
  have hids := h.ids
  rw [hguards] at hids
  refine ⟨?_, fun other hother => ?_, ?_, fun key entry hentry => ?_⟩
  · rw [List.map_append, List.map_cons] at hids ⊢
    exact hids
  · rw [hsent.next]
    rcases mem_split.mp hother with rfl | hother
    · exact h.numbered held (hguards ▸ mem_split.mpr (.inl rfl))
    · exact h.numbered other (hguards ▸ mem_split.mpr (.inr hother))
  · rw [hsent.next]
    exact h.next
  · rw [hsent.next]
    have hbefore : Governed world.guards world.state.next key entry := by
      rw [hsent.target] at hentry
      split at hentry
      · obtain ⟨before, hbefore, rfl⟩ := Option.map_eq_some_iff.mp hentry
        exact (h.governed key before hbefore).of_same rfl rfl rfl rfl rfl
      · exact h.governed key entry hentry
    refine hbefore.mono le_rfl (fun other hother hlive hkey => ?_) fun other hother hlive hkey => ?_
    · rcases mem_split.mp hother with rfl | hother
      · exact ⟨held, hguards ▸ mem_split.mpr (.inl rfl), rfl, hlive, hkey, rfl⟩
      · exact ⟨other, hguards ▸ mem_split.mpr (.inr hother), rfl, hlive, hkey, rfl⟩
    · rw [hguards] at hother
      rcases mem_split.mp hother with rfl | hother
      · exact ⟨other.sent now, mem_split.mpr (.inl rfl), rfl, hlive, hkey, rfl⟩
      · exact ⟨other, mem_split.mpr (.inr hother), rfl, hlive, hkey, rfl⟩

/-- **A completion keeps targets governed**, its own by its own rules. -/
theorem Circuits.finished (h : Circuits world) (howned : Owned runtime world)
    (hguards : world.guards = front ++ held :: back) (hlive : held.guard.finished = false)
    (hfinish : FinishedFrom runtime.lastInstant held.guard outcome now world.state state')
    (hinstant : now + openFor ≤ runtime.lastInstant) :
    Circuits { world with
      state := state', guards := front ++ held.finished :: back, latest := latest } := by
  have hids := h.ids
  rw [hguards] at hids
  obtain ⟨hrest, hdistinct⟩ := nodup_split hids
  have hheld : held ∈ world.guards := hguards ▸ mem_split.mpr (.inl rfl)
  have hothers : ∀ other ∈ front ++ held.finished :: back, other.guard.finished = false →
      other ∈ world.guards ∧ other.guard.id ≠ held.guard.id := by
    intro other hother hlive'
    rcases mem_split.mp hother with rfl | hother
    · cases hlive'
    · exact ⟨hguards ▸ mem_split.mpr (.inr hother), hdistinct other hother⟩
  have hkept : ∀ other ∈ world.guards, other.guard.id ≠ held.guard.id →
      other ∈ front ++ held.finished :: back := by
    intro other hother hne
    rw [hguards] at hother
    rcases mem_split.mp hother with rfl | hother
    · exact absurd rfl hne
    · exact mem_split.mpr (.inr hother)
  refine ⟨?_, fun other hother => ?_, ?_, fun key entry hentry => ?_⟩
  · rw [List.map_append, List.map_cons] at hids ⊢
    exact hids
  · rw [hfinish.next]
    rcases mem_split.mp hother with rfl | hother
    · exact h.numbered held hheld
    · exact h.numbered other (hguards ▸ mem_split.mpr (.inr hother))
  · rw [hfinish.next]
    exact h.next
  · rw [hfinish.next]
    rw [hfinish.target] at hentry
    split at hentry
    · next heq =>
      obtain ⟨before, hbefore, rfl⟩ := Option.map_eq_some_iff.mp hentry
      exact (h.governed key before hbefore).finish hheld hlive heq hothers hkept
        (howned.owners hbefore hheld hlive heq) h.next hinstant
    · next hne =>
      refine (h.governed key entry hentry).mono le_rfl (fun other hother hlive' hkey => ?_)
        fun other hother hlive' hkey => ?_
      · exact ⟨other, (hothers other hother hlive').1, rfl, hlive', hkey, rfl⟩
      · refine ⟨other, hkept other hother fun hsame => ?_, rfl, hlive', hkey, rfl⟩
        rw [hguards] at hother
        rcases mem_split.mp hother with rfl | hother
        · exact hne hkey
        · exact hdistinct other hother hsame

/-- A guard that is finished governs nothing, so it may go. -/
theorem Circuits.released (h : Circuits world) (hguards : world.guards = front ++ held :: back)
    (hdone : held.guard.finished = true) :
    Circuits { world with
      state := world.state.released held.guard, guards := front ++ back } := by
  have hids := h.ids
  rw [hguards] at hids
  refine ⟨(nodup_split hids).1, fun other hother => ?_, h.next, fun key entry hentry => ?_⟩
  · exact h.numbered other (hguards ▸ mem_split.mpr (.inr hother))
  · refine (h.governed key entry hentry).mono le_rfl (fun other hother hlive hkey => ?_)
      fun other hother hlive hkey => ?_
    · exact ⟨other, hguards ▸ mem_split.mpr (.inr hother), rfl, hlive, hkey, rfl⟩
    · rw [hguards] at hother
      rcases mem_split.mp hother with rfl | hother
      · rw [hdone] at hlive
        cases hlive
      · exact ⟨other, hother, rfl, hlive, hkey, rfl⟩

end Cases

/-- **A move keeps targets governed.** -/
theorem Circuits.move (h : Circuits world) (howned : Owned runtime world)
    (hinstant : Representable runtime op) (hmove : Moves runtime world op world') :
    Circuits world' := by
  cases hmove with
  | rests _ now state' hnow haging hsound hown => exact h.rests haging
  | admitted heap key spare limits now ready hready => exact h.admitted howned hready
  | sent front held back now state' hguards hsent hsound => exact h.sent hguards hsent
  | finished front held back outcome now state' hguards hlive hfinish hsound =>
    exact h.finished howned hguards hlive hfinish (hinstant now rfl)
  | released front held back hguards hdone => exact h.released hguards hdone

end BitRouter.Routing
