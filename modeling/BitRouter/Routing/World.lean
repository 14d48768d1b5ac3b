import BitRouter.Data.Along
import BitRouter.Routing.State

/-!
# Interleavings

The runtime together with the guards its callers hold, and what has been sent. An
operation is what one caller does under the lock; a guard that is dropped is
finished as unknown and then released, and others may come in between. The clock is
read before the lock is taken, so samples may arrive in any order; but a guard is
sent after it was admitted, and so not before anything that was completed by then
(`Timely`). How late a sample may be for an open circuit to be respected is said by
`Prompt` and, in terms of `MayEnd`, by the condition on admissions.
-/

namespace BitRouter.Routing

/-! ## Operations -/

inductive Op where
  | admission (heap : Heap) (key : Key) (spare : ℕ) (limits : Limits) (now : ℕ)
  | sent (guard : ℕ) (now : ℕ)
  | finish (guard : ℕ) (outcome : Outcome) (now : ℕ)
  | release (guard : ℕ)
  | order (now : ℕ)
deriving DecidableEq, Repr

/-- The sample of the clock. -/
def Op.now? : Op → Option ℕ
  | .admission _ _ _ _ now | .sent _ now | .finish _ _ now | .order now => some now
  | .release _ => none

/-- A guard in the custody of a caller, and the latest sample there was when it was
admitted. -/
structure Held where
  guard : Admission
  since : ℕ
deriving DecidableEq, Repr

structure Send where
  key : Key
  provider : Option ProviderKey
  now : ℕ
deriving DecidableEq, Repr

/-- **The runtime and its callers**, with the latest sample and all that was sent. -/
structure World where
  state : State := {}
  guards : List Held := []
  latest : ℕ := 0
  sends : List Send := []

namespace World

variable (runtime : Runtime)

def step (world : World) (op : Op) : World :=
  let world := { world with latest := op.now?.elim world.latest (max world.latest) }
  match op with
  | .admission heap key spare limits now =>
    match admitAt runtime heap key spare limits now world.state with
    | (state, .ok guard) =>
      { world with state := state, guards := world.guards ++ [⟨guard, world.latest⟩] }
    | (state, .error _) => { world with state := state }
  | .sent i now =>
    match world.guards[i]? with
    | none => world
    | some held =>
      match sentAt held.guard now world.state with
      | (state, .ok guard) =>
        { world with
          state := state
          guards := world.guards.set i { held with guard := guard }
          sends := world.sends ++ [⟨guard.key, guard.provider, now⟩] }
      | (state, .error _) => { world with state := state }
  | .finish i outcome now =>
    match world.guards[i]? with
    | none => world
    | some held =>
      let (state, guard) := finishAt runtime held.guard outcome now world.state
      { world with state := state, guards := world.guards.set i { held with guard := guard } }
  | .release i =>
    match world.guards[i]? with
    | none => world
    | some held =>
      if held.guard.finished then
        { world with
          state := world.state.released held.guard
          guards := world.guards.eraseIdx i }
      else world
  | .order _ => world

def run (ops : List Op) : World := ops.foldl (step runtime) {}

end World

/-! ## Lanes -/

/-- What has a rate: a target, or a provider. -/
inductive Lane where
  | target (key : Key)
  | provider (key : ProviderKey)
deriving DecidableEq, Repr

def State.rate (state : State) : Lane → Rate
  | .target key => (state.targets.get key).elim {} Entry.rate
  | .provider key => (state.providers.get key).getD {}

def Admission.uses (guard : Admission) : Lane → Bool
  | .target key => guard.key = key
  | .provider key => guard.provider = some key

def Send.uses (send : Send) : Lane → Bool
  | .target key => send.key = key
  | .provider key => send.provider = some key

/-- The limit that a request puts on a lane. -/
def Limits.of (limits : Limits) (key : Key) : Lane → Option (Option UInt32)
  | .target key' => if key = key' then some limits.model else none
  | .provider key' =>
    if limits.providerKey key = some key' then some (limits.provider.map Prod.snd) else none

def Held.active (lane : Lane) (held : Held) : Bool := !held.guard.finished && held.guard.uses lane

/-- An unfinished guard of a lane that is not sent. -/
def Held.pending (lane : Lane) (held : Held) : Bool :=
  held.active lane && held.guard.sent.isNone

/-! ## Samples of the clock -/

/-- **A guard is sent after it was admitted.** -/
def Timely (world : World) : Op → Prop
  | .sent i now => ∀ held, world.guards[i]? = some held → held.since ≤ now
  | _ => True

instance decidableTimely (world : World) (op : Op) : Decidable (Timely world op) := by
  cases op <;> unfold Timely <;> infer_instance

/-- The ends of open periods are instants. -/
def Representable (runtime : Runtime) (op : Op) : Prop :=
  ∀ now, op.now? = some now → now + openFor ≤ runtime.lastInstant

/-- **A completion is not so late that its circuit is forgotten while it is open.** -/
def Prompt (world : World) : Op → Prop
  | .finish i _ now => ∀ held, world.guards[i]? = some held → held.guard.finished = false →
      ∀ entry, world.state.targets.get held.guard.key = some entry →
        ∀ until', entry.openUntil = some until' → until' ≤ now + fresh
  | _ => True

instance decidablePrompt (world : World) (op : Op) : Decidable (Prompt world op) := by
  cases op <;> unfold Prompt <;> infer_instance

/-- **An admission that may end an open period**: it is sampled past the period,
and it is of the target itself, which it probes, or it finds the target untouched
for so long that it may reclaim it. -/
def MayEnd (world : World) (key : Key) (until' : ℕ) : Op → Prop
  | .admission _ key' _ _ now => until' ≤ now
      ∧ (key' = key ∨ ∃ entry ∈ world.state.targets.get key, entry.touched + fresh ≤ now)
  | _ => False

instance decidableMayEnd (world : World) (key : Key) (until' : ℕ) (op : Op) :
    Decidable (MayEnd world key until' op) := by
  cases op <;> unfold MayEnd <;> infer_instance

instance decidableRepresentable (runtime : Runtime) (op : Op) :
    Decidable (Representable runtime op) := by
  unfold Representable
  infer_instance

end BitRouter.Routing
