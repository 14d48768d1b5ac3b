import BitRouter.Routing.OpenPeriod
import BitRouter.Routing.Windows

/-!
# Runs of the runtime

Every interleaving of the operations keeps the runtime regulated (`run_regulated`):
limits hold in every minute, counters are counts, probes have owners, nothing in use
is reclaimed, and a circuit that opens refuses until its period is over. The last
holds where no completion of a target whose circuit is open comes with a sample from
more than five minutes before the period ends; `touched` is the sample of the last
completion that reached the lock, not the latest one.
-/

namespace BitRouter.Routing

variable {runtime : Runtime} {ops : List Op} {op : Op} {world : World} {key : Key}

/-! ## What is in use -/

/-- **A target in use**: it has an unfinished guard, something in its window, a probe
or a sample that is fresh. -/
def InUse (world : World) (op : Op) (key : Key) (entry : Entry) : Prop :=
  (∃ held ∈ world.guards, held.guard.finished = false ∧ held.guard.key = key)
    ∨ (∀ now, op.now? = some now → (entry.rate.expire (tickOf now)).seconds ≠ [])
    ∨ entry.probe ≠ none
    ∨ ∀ now, op.now? = some now → ∃ sample ∈ entry.samples, now - sample.takenAt < fresh

def ProviderInUse (world : World) (op : Op) (key : ProviderKey) (rate : Rate) : Prop :=
  (∃ held ∈ world.guards, held.guard.finished = false ∧ held.guard.provider = some key)
    ∨ ∀ now, op.now? = some now → (rate.expire (tickOf now)).seconds ≠ []

variable {entry : Entry} {now : ℕ}

theorem Aging.kept {state state' : State} (haging : Aging now state state')
    (hentry : state.targets.get key = some entry)
    (huse : (entry.expire now).evictable now = false) : (state'.targets.get key).isSome := by
  have haged := haging.target key
  rw [hentry] at haged
  exact haged.kept huse

variable {rate : Rate}

theorem Aging.keptProvider {state state' : State} (haging : Aging now state state')
    {key : ProviderKey} (hrate : state.providers.get key = some rate)
    (huse : (rate.expire (tickOf now)).idle = false) : (state'.providers.get key).isSome := by
  have haged := haging.provider key
  rw [hrate] at haged
  exact haged.kept huse

section

variable (howned : Owned runtime world)

include howned

theorem not_evictable_of_inUse
    (hentry : world.state.targets.get key = some entry) (hnow : op.now? = some now)
    (huse : InUse world op key entry) : (entry.expire now).evictable now = false := by
  rw [← Bool.not_eq_true]
  intro hgone
  simp only [Entry.evictable, Rate.idle, Bool.and_eq_true, decide_eq_true_eq, List.isEmpty_iff,
    Option.isNone_iff_eq_none] at hgone
  obtain ⟨⟨⟨⟨⟨hactive, -⟩, hseconds⟩, hprobe⟩, hsamples⟩, -⟩ := hgone
  rcases huse with ⟨held, hheld, hlive, hkey⟩ | hwindow | hprobed | hfresh
  · exact absurd hactive (howned.owners hentry hheld hlive hkey).ne'
  · exact hwindow now hnow hseconds
  · exact hprobed hprobe
  · obtain ⟨sample, hsample, hlt⟩ := hfresh now hnow
    have hkept : sample ∈ (entry.expire now).samples :=
      List.mem_filter.mpr ⟨hsample, decide_eq_true hlt⟩
    rw [hsamples] at hkept
    exact absurd hkept List.not_mem_nil

theorem not_idle_of_inUse {key : ProviderKey}
    (hrate : world.state.providers.get key = some rate) (hnow : op.now? = some now)
    (huse : ProviderInUse world op key rate) : (rate.expire (tickOf now)).idle = false := by
  rw [← Bool.not_eq_true]
  intro hgone
  simp only [Rate.idle, Bool.and_eq_true, decide_eq_true_eq, List.isEmpty_iff] at hgone
  obtain ⟨⟨hactive, -⟩, hseconds⟩ := hgone
  rcases huse with ⟨held, hheld, hlive, hprovider⟩ | hwindow
  · have hpos := howned.present (.provider key) hheld
      (by rw [active_of_live held hlive, Admission.uses, decide_eq_true hprovider])
    have hsame : world.state.rate (.provider key) = rate := by
      show (world.state.providers.get key).getD {} = rate
      rw [hrate]
      rfl
    rw [hsame] at hpos
    exact absurd hactive hpos.ne'
  · exact hwindow now hnow hseconds

/-- **No target in use is reclaimed.** -/
theorem target_kept {world' : World} (hmove : Moves runtime world op world')
    (hentry : world.state.targets.get key = some entry) (huse : InUse world op key entry) :
    (world'.state.targets.get key).isSome := by
  have hsome : (world.state.targets.get key).isSome := by rw [hentry]; rfl
  cases hmove with
  | rests _ now state' hle haging hsound hown =>
    rcases hown with ⟨heap, key', spare, limits, rfl⟩ | hsame
    · exact haging.kept hentry (not_evictable_of_inUse howned hentry rfl huse)
    · exact hsame ▸ hsome
  | admitted heap key' spare limits now ready hready =>
    rw [get_book]
    split
    · rfl
    · exact hready.aging.kept hentry (not_evictable_of_inUse howned hentry rfl huse)
  | sent front held back now state' hguards hsent hsound =>
    rw [hsent.target]
    split
    · rw [Option.isSome_map]
      exact hsome
    · exact hsome
  | finished front held back outcome now state' hguards hlive hfinish hsound =>
    rw [hfinish.target]
    split
    · rw [Option.isSome_map]
      exact hsome
    · exact hsome
  | released front held back hguards hdone => exact hsome

/-- No provider in use is reclaimed. -/
theorem provider_kept {world' : World} (hmove : Moves runtime world op world') {key : ProviderKey}
    (hrate : world.state.providers.get key = some rate) (huse : ProviderInUse world op key rate) :
    (world'.state.providers.get key).isSome := by
  have hsome : (world.state.providers.get key).isSome := by rw [hrate]; rfl
  cases hmove with
  | rests _ now state' hle haging hsound hown =>
    rcases hown with ⟨heap, key', spare, limits, rfl⟩ | hsame
    · exact haging.keptProvider hrate (not_idle_of_inUse howned hrate rfl huse)
    · exact hsame ▸ hsome
  | admitted heap key' spare limits now ready hready =>
    rw [getProvider_book]
    split
    · rfl
    · exact hready.aging.keptProvider hrate (not_idle_of_inUse howned hrate rfl huse)
  | sent front held back now state' hguards hsent hsound => exact (hsent.provider key).trans hsome
  | finished front held back outcome now state' hguards hlive hfinish hsound =>
    exact (hfinish.provider key).trans hsome
  | released front held back hguards hdone => exact hsome

end

/-! ## Runs -/

/-- What holds of every state of a run. -/
structure Reached (runtime : Runtime) (ops : List Op) : Prop where
  owned : Owned runtime (World.run runtime ops)
  windowed : Windowed (World.run runtime ops)
  circuits : Circuits (World.run runtime ops)

theorem run_concat (ops : List Op) (op : Op) :
    World.run runtime (ops ++ [op]) = (World.run runtime ops).step runtime op := by
  rw [World.run, List.foldl_append]
  rfl

theorem Reached.move (h : Reached runtime ops) (op : Op) :
    Moves runtime (World.run runtime ops) op (World.run runtime (ops ++ [op])) := by
  rw [run_concat]
  exact moves_step h.owned op

theorem reached_of_representable (hinstants : ∀ op ∈ ops, Representable runtime op) :
    Reached runtime ops := by
  induction ops using List.reverseRecOn with
  | nil => exact ⟨.init, windowed_init, .init⟩
  | append_singleton ops op ih =>
    have h := ih fun op' hop' => hinstants op' (List.mem_append_left _ hop')
    have hmove := h.move op
    exact ⟨h.owned.move hmove, h.windowed.move hmove,
      h.circuits.move h.owned (hinstants op (by simp)) hmove⟩

theorem window_of_limited {lane : Lane} {limit : UInt32}
    (hinstants : ∀ op ∈ ops, Representable runtime op)
    (htimely : Along (fun pre op => Timely (World.run runtime pre) op) ops)
    (hlimited : ∀ op ∈ ops, Limited lane limit op) :
    Window lane limit (World.run runtime ops) := by
  induction ops using List.reverseRecOn with
  | nil => exact .init
  | append_singleton ops op ih =>
    obtain ⟨htimely, hlast⟩ := along_concat.mp htimely
    have hbefore := fun op' hop' => hinstants op' (List.mem_append_left [op] hop')
    have h := reached_of_representable hbefore
    exact (ih hbefore htimely
      fun op' hop' => hlimited op' (List.mem_append_left _ hop')).move h.owned
      (hlimited op (by simp)) hlast (h.move op)

/-- **An opened circuit is open** while no admission has ended the period. -/
theorem openUntil_of_run {pre post : List Op}
    (hinstants : ∀ op' ∈ pre ++ op :: post, Representable runtime op')
    (hprompt : Along (fun pre op => Prompt (World.run runtime pre) op) (pre ++ op :: post))
    (hnow : op.now? = some now) (hopens : Opens (World.run runtime pre) key op)
    (hpost : Along (fun mid op' =>
      ¬ MayEnd (World.run runtime (pre ++ op :: mid)) key (now + openFor) op') post) :
    OpenUntil (World.run runtime (pre ++ op :: post)) key (now + openFor) := by
  induction post using List.reverseRecOn with
  | nil =>
    have h := reached_of_representable fun op' hop' => hinstants op' (List.mem_append_left _ hop')
    rw [run_concat]
    exact openUntil_of_opens h.circuits h.owned hnow (hinstants op (by simp) now hnow) hopens
  | append_singleton post last ih =>
    rw [← List.cons_append, ← List.append_assoc] at hinstants hprompt ⊢
    obtain ⟨hprompt, hlast⟩ := along_concat.mp hprompt
    obtain ⟨hpost, hend⟩ := along_concat.mp hpost
    have hbefore := fun op' hop' => hinstants op' (List.mem_append_left [last] hop')
    have h := reached_of_representable hbefore
    exact OpenUntil.move (ih hbefore hprompt hpost) h.circuits hlast hend (h.move last)

/-! ## Regulation -/

/-- **The runtime is regulated** by the end of a run, and in the step after it. -/
structure Regulated (runtime : Runtime) (ops : List Op) : Prop where
  past : ∀ lane limit, (∀ op ∈ ops, Limited lane limit op) → ∀ start,
    sendsIn lane start (start + minute) (World.run runtime ops).sends ≤ limit.toNat
  present : ∀ lane limit, (∀ op ∈ ops, Limited lane limit op) → ∀ start,
    (World.run runtime ops).latest < start + minute →
      sendsIn lane start (start + minute) (World.run runtime ops).sends
        + (World.run runtime ops).guards.countP (Held.pending lane) ≤ limit.toNat
  buckets : ∀ lane, ((World.run runtime ops).state.rate lane).seconds.length ≤ rateBuckets
  counts : ∀ lane, ((World.run runtime ops).state.rate lane).active
      = (World.run runtime ops).guards.countP (Held.active lane)
    ∧ ((World.run runtime ops).state.rate lane).pending
      = (World.run runtime ops).guards.countP (Held.pending lane)
  probes : ∀ key entry, (World.run runtime ops).state.targets.get key = some entry →
    (∀ id, entry.probe = some id → ∃ held ∈ (World.run runtime ops).guards,
      held.guard.id = id ∧ held.guard.finished = false ∧ held.guard.key = key)
    ∧ (entry.openUntil.isSome → ∀ held ∈ (World.run runtime ops).guards,
      held.guard.finished = false → held.guard.key = key →
        held.guard.generation = entry.generation → entry.probe = some held.guard.id)
  ids : ((World.run runtime ops).guards.map (·.guard.id)).Nodup
  /-- Every admission sampled within the open period is refused. -/
  opened : ∀ pre op mid post key heap spare limits now now',
    ops = pre ++ op :: mid ++ .admission heap key spare limits now' :: post →
    op.now? = some now → Opens (World.run runtime pre) key op → now' < now + openFor →
    ∃ refusal, (admitAt runtime heap key spare limits now'
      (World.run runtime (pre ++ op :: mid)).state).2 = .error refusal
  openings : ∀ op key entry' until', Representable runtime op →
    (World.run runtime (ops ++ [op])).state.targets.get key = some entry' →
    entry'.openUntil = some until' →
    (∃ entry, (World.run runtime ops).state.targets.get key = some entry
        ∧ entry.openUntil = some until')
      ∨ Opens (World.run runtime ops) key op ∧ ∃ now, op.now? = some now ∧ until' = now + openFor
  older : ∀ i held outcome now entry, (World.run runtime ops).guards[i]? = some held →
    held.guard.finished = false →
    (World.run runtime ops).state.targets.get held.guard.key = some entry →
    held.guard.generation ≠ entry.generation →
    ∃ entry', (World.run runtime (ops ++ [.finish i outcome now])).state.targets.get held.guard.key
        = some entry'
      ∧ entry'.failures = entry.failures ∧ entry'.generation = entry.generation
      ∧ entry'.openUntil = entry.openUntil ∧ entry'.probe = entry.probe
      ∧ entry'.samples = entry.samples
  kept : ∀ op,
    (∀ key entry, (World.run runtime ops).state.targets.get key = some entry →
      InUse (World.run runtime ops) op key entry →
      ((World.run runtime (ops ++ [op])).state.targets.get key).isSome)
    ∧ ∀ key rate, (World.run runtime ops).state.providers.get key = some rate →
      ProviderInUse (World.run runtime ops) op key rate →
      ((World.run runtime (ops ++ [op])).state.providers.get key).isSome
  bytes : (World.run runtime ops).state.bytes = heldBytes (World.run runtime ops).guards
    + (World.run runtime ops).state.targets.charges runtime.layout.targetCharge
    + (World.run runtime ops).state.providers.charges runtime.layout.providerCharge

theorem finish_older (h : Circuits world) (howned : Owned runtime world) {i : ℕ} {held : Held}
    (outcome : Outcome) (now : ℕ) (hheld : world.guards[i]? = some held)
    (hlive : held.guard.finished = false)
    (hentry : world.state.targets.get held.guard.key = some entry)
    (hold : held.guard.generation ≠ entry.generation) :
    ∃ entry', (world.step runtime (.finish i outcome now)).state.targets.get held.guard.key
        = some entry'
      ∧ entry'.failures = entry.failures ∧ entry'.generation = entry.generation
      ∧ entry'.openUntil = entry.openUntil ∧ entry'.probe = entry.probe
      ∧ entry'.samples = entry.samples := by
  have hfinish := state_step_finish howned outcome now hheld hlive
  refine ⟨entry.left held.guard now, ?_, rfl, rfl, rfl, if_neg fun hprobe => ?_, rfl⟩
  · rw [hfinish.target, if_pos rfl, hentry, Option.map_some, finish_uncounted _ _ (.inr hold)]
  · -- the probe of a target is of its generation
    obtain ⟨-, owner, howner, hid, -, -, hgen⟩ := (h.governed _ entry hentry).owner _ hprobe
    have hsame : owner = held :=
      List.inj_on_of_nodup_map h.ids howner (List.mem_of_getElem? hheld) hid
    exact hold (hsame ▸ hgen)

/-- **Every run is regulated**, if guards are sent after they were admitted, periods
end at instants, no completion is so late that an open circuit is forgotten, and no
admission sampled within an open period is overtaken by one that may end it. -/
theorem run_regulated (hinstants : ∀ op ∈ ops, Representable runtime op)
    (htimely : Along (fun pre op => Timely (World.run runtime pre) op) ops)
    (hprompt : Along (fun pre op => Prompt (World.run runtime pre) op) ops)
    (hpunctual : Along (Punctual runtime) ops) :
    Regulated runtime ops where
  past lane limit hlimited start :=
    le_of_add_le_left ((window_of_limited hinstants htimely hlimited).bounded start)
  present lane limit hlimited start hstart := by
    have hwindow := window_of_limited hinstants htimely hlimited
    have hpending := (reached_of_representable hinstants).owned.pending lane
    have hsends := hwindow.sendsIn_le hstart
    have hquota := hwindow.quota
    omega
  buckets lane := ((reached_of_representable hinstants).windowed lane).length_le
  counts lane := ⟨(reached_of_representable hinstants).owned.active lane,
    (reached_of_representable hinstants).owned.pending lane⟩
  probes key entry hentry := by
    have hgoverned := (reached_of_representable hinstants).circuits.governed key entry hentry
    refine ⟨fun id hid => ?_, hgoverned.current⟩
    obtain ⟨-, held, hheld, hsame, hlive, hkey, -⟩ := hgoverned.owner id hid
    exact ⟨held, hheld, hsame, hlive, hkey⟩
  ids := (reached_of_representable hinstants).circuits.ids
  opened pre op mid post key heap spare limits now now' hops hnow hopens hnow' := by
    have hmid := hpunctual _ _ _ hops pre op mid rfl now hnow hopens hnow'
    subst hops
    have hbefore := fun op' hop' => hinstants op' (List.mem_append_left _ hop')
    have h := reached_of_representable hbefore
    exact (openUntil_of_run hbefore (along_of_append hprompt) hnow hopens hmid).refused h.owned
      hnow' heap spare limits
  openings op key entry' until' hinstant hentry' hopen := by
    have h := reached_of_representable hinstants
    exact opens_of_move h.circuits hinstant (h.move op) hentry' hopen
  older i held outcome now entry hheld hlive hentry hold := by
    have h := reached_of_representable hinstants
    rw [run_concat]
    exact finish_older h.circuits h.owned outcome now hheld hlive hentry hold
  kept op := by
    have h := reached_of_representable hinstants
    exact ⟨fun key entry hentry => target_kept h.owned (h.move op) hentry,
      fun key rate hrate => provider_kept h.owned (h.move op) hrate⟩
  bytes := (reached_of_representable hinstants).owned.sound.bytes

namespace Forgotten

def target (model : String) : Key := ⟨"namespace", "provider", model, none, "endpoint"⟩

/-- A runtime with room for two targets. -/
def small : Runtime := ⟨2, 1000000, 8, 1000000000000000, ⟨64, 128, 256, 128, 1024, 1536⟩⟩

def heap : Heap := ⟨true, some 3, some 3, 3, 3⟩

/-- Four calls of one target are sent at once, and two of them fail after a thousand
seconds. A call of another target is given up. -/
def failing : List Op :=
  [.admission heap (target "other") 0 {} 0, .finish 0 .unknown 0, .release 0,
    .admission heap (target "target") 0 {} 0, .admission heap (target "target") 0 {} 0,
    .admission heap (target "target") 0 {} 0, .admission heap (target "target") 0 {} 0,
    .sent 0 0, .sent 1 0, .sent 2 0, .sent 3 0,
    .finish 0 .unavailable (1000 * second), .finish 1 .unavailable (1000 * second)]

def third : Op := .finish 2 .unavailable (1000 * second)

/-- The fourth call was completed long before, and its completion is late. -/
def late : List Op :=
  [.finish 3 .unknown (500 * second), .admission heap (target "third") 0 {} (1001 * second)]

/-- The third failure; another target is admitted, at last with a sample past the open
period, before a late completion and a call of the target within the period come; then
the target is probed with success. -/
def orderly : List Op :=
  [third, .admission heap (target "third") 0 {} (1001 * second), .finish 3 .unknown (990 * second),
    .admission heap (target "third") 0 {} (1035 * second),
    .admission heap (target "target") 0 {} (1002 * second),
    .admission heap (target "target") 0 {} (1040 * second), .sent 6 (1040 * second),
    .finish 6 (.success none) (1041 * second)]

/-- A run that is regulated, though its samples come out of order. -/
theorem regulated_prompt : Regulated small (failing ++ orderly) :=
  run_regulated (by decide +kernel) (by decide +kernel) (by decide +kernel) (by decide +kernel)

/-- **An open circuit is forgotten**: two seconds after it opened, the target is
admitted again. -/
theorem admitted_while_open :
    (∀ op ∈ failing ++ third :: late, Representable small op)
    ∧ Along (fun pre op => Timely (World.run small pre) op) (failing ++ third :: late)
    ∧ Opens (World.run small failing) (target "target") third
    ∧ (∀ op ∈ late, ∀ now, op.now? = some now → now < 1000 * second + openFor)
    ∧ ∃ guard, (admitAt small heap (target "target") 0 {} (1002 * second)
        (World.run small (failing ++ third :: late)).state).2 = .ok guard := by
  refine ⟨by decide +kernel, by decide +kernel, ?_, by decide +kernel, ?_⟩
  · refine ⟨⟨⟨target "target", none, 159, 4, 0, some 0, false⟩, 0⟩,
      { rate := ⟨0, 2, [(0, 4)]⟩, failures := 2, touched := 1000 * second },
      by decide +kernel, rfl, rfl, rfl, by decide +kernel, rfl, .inr ⟨by decide, rfl, rfl⟩⟩
  · exact ⟨⟨target "target", none, 159, 7, 0, none, false⟩, by decide +kernel⟩

end Forgotten

end BitRouter.Routing
