import BitRouter.Data.Buckets
import BitRouter.Data.IndexMap
import Mathlib.Data.UInt

/-!
# Local routing state

`tenancy/routing/state.rs`: rate windows, circuits and samples of the targets a
service sends to, under budgets of entries, bytes and calls in flight. An instant is
a number of nanoseconds since the runtime was made; what the allocator and the
platform decide is an argument (`Layout`, `Heap`).
-/

namespace BitRouter.Routing

def u32Max : ℕ := 4294967295

def u64Max : ℕ := 18446744073709551615

/-- The longest key. -/
def maxKeyBytes : ℕ := 16384

/-- A minute, and the second at its end. -/
def rateBuckets : ℕ := 61

/-- The samples an entry keeps. -/
def maxSamples : ℕ := 32

/-- A second, in nanoseconds. -/
def second : ℕ := 1000000000

/-- How long a target is of interest. -/
def fresh : ℕ := 300 * second

/-- How long a circuit stays open. -/
def openFor : ℕ := 30 * second

/-- The failures that open it. -/
def maxFailures : ℕ := 3

/-- The second of an instant. -/
def tickOf (now : ℕ) : ℕ := now / second

/-! ## Keys and limits -/

/-- Credential namespace and dispatch identity. -/
structure Key where
  (namespace' : String)
  provider : String
  model : String
  account : Option String
  endpoint : String
deriving DecidableEq, Repr

def Key.bytes (key : Key) : ℕ :=
  key.namespace'.utf8ByteSize + key.provider.utf8ByteSize + key.model.utf8ByteSize
    + key.account.elim 0 String.utf8ByteSize + key.endpoint.utf8ByteSize

/-- What a provider limit is about. -/
structure ProviderKey where
  (namespace' : String)
  provider : String
  account : Option String
  endpoint : String
  pattern : String
deriving DecidableEq, Repr

def ProviderKey.bytes (key : ProviderKey) : ℕ :=
  key.namespace'.utf8ByteSize + key.provider.utf8ByteSize + key.endpoint.utf8ByteSize
    + key.pattern.utf8ByteSize + key.account.elim 0 String.utf8ByteSize

/-- The rate limits of an admission. -/
structure Limits where
  provider : Option (String × UInt32) := none
  model : Option UInt32 := none
deriving DecidableEq, Repr

def Limits.providerKey (limits : Limits) (key : Key) : Option ProviderKey :=
  limits.provider.map fun provider =>
    ⟨key.namespace', key.provider, key.account, key.endpoint, provider.1⟩

/-- Why an admission is refused. -/
inductive Refusal where
  | capacity | rateLimited | circuitOpen | unavailable
deriving DecidableEq, Repr

/-- How a request ended. -/
inductive Outcome where
  | success (outputTokens : Option UInt64) | unavailable | neutral | unknown
deriving DecidableEq, Repr

/-! ## Rates -/

/-- The requests of the last minute. -/
structure Rate where
  pending : ℕ := 0
  active : ℕ := 0
  seconds : List (ℕ × ℕ) := []
deriving DecidableEq, Repr

namespace Rate

/-- Forgets what is over a minute old. -/
def expire (tick : ℕ) (rate : Rate) : Rate :=
  { rate with seconds := Buckets.expire rateBuckets tick rate.seconds }

/-- Whether one more is within a limit. -/
def available (rate : Rate) (limit : UInt32) : Bool :=
  rate.seconds.foldl (fun total b => min (total + b.2) u64Max) (min rate.pending u64Max)
    < limit.toNat

/-- A reservation is used. A late send is counted in the last bucket. -/
def sent (tick : ℕ) (rate : Rate) : Rate :=
  { rate with
    pending := rate.pending - 1
    seconds := Buckets.record rateBuckets u64Max tick rate.seconds }

/-- Nothing is counted. -/
def idle (rate : Rate) : Bool := rate.active = 0 && rate.pending = 0 && rate.seconds.isEmpty

/-- Counts one more. -/
def admitOne (rate : Rate) : Rate :=
  { rate with pending := rate.pending + 1, active := rate.active + 1 }

/-- An owner is gone, and its reservation too if it was not used. -/
def finish (wasSent : Bool) (rate : Rate) : Rate :=
  { rate with
    active := rate.active - 1
    pending := if wasSent then rate.pending else rate.pending - 1 }

/-- Another owner can be counted. -/
def countable (rate : Rate) : Bool := rate.pending < u64Max && rate.active < u64Max

end Rate

/-! ## Entries -/

/-- One finished request. -/
structure Sample where
  takenAt : ℕ
  elapsed : ℕ
  output : Option UInt64
deriving DecidableEq, Repr

/-- What is known of a target. -/
structure Entry where
  rate : Rate := {}
  failures : ℕ := 0
  generation : ℕ := 0
  openUntil : Option ℕ := none
  probe : Option ℕ := none
  touched : ℕ
  samples : List Sample := []
deriving DecidableEq, Repr

namespace Entry

def new (now : ℕ) : Entry := { touched := now }

def expire (now : ℕ) (entry : Entry) : Entry :=
  { entry with
    rate := entry.rate.expire (tickOf now)
    samples := entry.samples.filter fun sample => now - sample.takenAt < fresh }

/-- The circuit opens. Where its end is no instant, a probe that nobody owns keeps
it closed to admission. -/
def reopen (lastInstant now : ℕ) (entry : Entry) : Entry :=
  if now + openFor ≤ lastInstant then { entry with openUntil := some (now + openFor) }
  else { entry with openUntil := none, probe := some 0 }

/-- Idle, and no longer of interest. -/
def evictable (now : ℕ) (entry : Entry) : Bool :=
  entry.rate.idle && entry.probe.isNone && entry.samples.isEmpty && fresh ≤ now - entry.touched

/-- A sample of a completion, the oldest making place for it. -/
def sample (now started : ℕ) (output : Option UInt64) (entry : Entry) : Entry :=
  let elapsed := now - started
  if elapsed ≠ 0 ∧ elapsed ≤ 3600 * second then
    let kept := if entry.samples.length = maxSamples then entry.samples.tail else entry.samples
    { entry with samples := kept ++ [⟨now, elapsed, output⟩] }
  else entry

/-- A completion is counted. -/
def complete (lastInstant now started : ℕ) (wasProbe : Bool) (outcome : Outcome)
    (entry : Entry) : Entry :=
  match outcome with
  | .success output =>
    { entry with failures := 0, openUntil := none }.sample now started output
  | .unavailable =>
    let failures := min (entry.failures + 1) u32Max
    if wasProbe ∨ maxFailures ≤ failures then
      { entry with failures := failures, generation := min (entry.generation + 1) u64Max }.reopen
        lastInstant now
    else { entry with failures := failures }
  | .neutral | .unknown => if wasProbe then entry.reopen lastInstant now else entry

end Entry

/-! ## Tables -/

/-- Sizes of the platform. -/
structure Layout where
  runtimeSize : ℕ
  admissionSize : ℕ
  targetSlot : ℕ
  providerSlot : ℕ
  rateBytes : ℕ
  sampleBytes : ℕ
deriving DecidableEq, Repr

/-- **The runtime**: its budgets, and the last instant that can be represented. -/
structure Runtime where
  maxEntries : ℕ
  maxBytes : ℕ
  maxInFlight : ℕ
  lastInstant : ℕ
  layout : Layout
deriving DecidableEq, Repr

/-- What the allocator answers during an admission: whether the buffers of new
entries are allocated, the capacity of a table that is made larger, and that of a
table some entries of which were removed. -/
structure Heap where
  buffers : Bool
  targets : Option ℕ
  providers : Option ℕ
  keptTargets : ℕ
  keptProviders : ℕ
deriving DecidableEq, Repr

/-- A hash table with its capacity. -/
structure Table (κ α : Type) where
  entries : List (κ × α) := []
  capacity : ℕ := 0

/-- What its slots take. -/
def mapBytes (slot capacity : ℕ) : ℕ :=
  if capacity = 0 then 0 else (capacity + 1) * 2 * (slot + 1) + 64

namespace Table

variable {κ α : Type} [DecidableEq κ]

def get (table : Table κ α) (key : κ) : Option α := IndexMap.get table.entries key

def set (table : Table κ α) (key : κ) (value : α) : Table κ α :=
  { table with entries := IndexMap.insert table.entries key value }

/-- Every value is kept, changed or removed. -/
def retain (capacity : ℕ) (table : Table κ α) (keep : α → Option α) : Table κ α :=
  let entries := table.entries.filterMap fun e => (keep e.2).map (e.1, ·)
  ⟨entries, if entries.isEmpty then 0 else capacity⟩

/-- The keys that `retain` removes. -/
def removed (table : Table κ α) (keep : α → Option α) : List κ :=
  (table.entries.filter fun e => (keep e.2).isNone).map Prod.fst

/-- What growing it would take. -/
def growthBytes (slot : ℕ) (table : Table κ α) (additional : ℕ) : ℕ :=
  let needed := table.entries.length + additional
  if needed ≤ table.capacity then 0 else mapBytes slot (max (needed * 2) 4)

/-- The table with room, and what it is charged. -/
def grow (slot : ℕ) (allocated : Option ℕ) (table : Table κ α) (charged additional : ℕ) :
    Option (Table κ α × ℕ) :=
  let reservation := table.growthBytes slot additional
  if reservation = 0 then some (table, charged)
  else
    match allocated with
    | none => none
    | some capacity =>
      if mapBytes slot capacity ≤ reservation then
        some ({ table with capacity := capacity }, mapBytes slot capacity)
      else none

end Table

/-! ## State -/

/-- The routing state of a runtime. -/
structure State where
  providers : Table ProviderKey Rate := {}
  targets : Table Key Entry := {}
  providerBytes : ℕ := 0
  targetBytes : ℕ := 0
  bytes : ℕ := 0
  next : ℕ := 0
  active : ℕ := 0

/-- What a target is charged. -/
def Layout.targetCharge (layout : Layout) (key : Key) : ℕ :=
  key.bytes + layout.rateBytes + layout.sampleBytes

/-- What a provider is charged. -/
def Layout.providerCharge (layout : Layout) (key : ProviderKey) : ℕ := key.bytes + layout.rateBytes

/-- A target that stays, brought up to the present. -/
def keepTarget (now : ℕ) (entry : Entry) : Option Entry :=
  let entry := entry.expire now
  if entry.evictable now then none else some entry

/-- A provider that stays, brought up to the present. -/
def keepProvider (now : ℕ) (rate : Rate) : Option Rate :=
  let rate := rate.expire (tickOf now)
  if rate.idle then none else some rate

/-- Gives charges back. -/
def discharge (bytes : ℕ) (charges : List ℕ) : ℕ := charges.foldl (· - ·) bytes

namespace State

/-- All that is charged. -/
def usedBytes (layout : Layout) (state : State) : ℕ :=
  layout.runtimeSize + state.bytes + state.targetBytes + state.providerBytes

/-- **Reclaim what nobody uses.** -/
def reclaim (layout : Layout) (heap : Heap) (now : ℕ) (state : State) : State :=
  let targets := state.targets.retain heap.keptTargets (keepTarget now)
  let providers := state.providers.retain heap.keptProviders (keepProvider now)
  { state with
    targets := targets
    providers := providers
    bytes := discharge
      (discharge state.bytes ((state.targets.removed (keepTarget now)).map layout.targetCharge))
      ((state.providers.removed (keepProvider now)).map layout.providerCharge)
    targetBytes := if targets.entries.isEmpty then 0 else state.targetBytes
    providerBytes := if providers.entries.isEmpty then 0 else state.providerBytes }

/-- The entries of a request are brought up to the present. -/
def expireOwn (key : Key) (provider : Option ProviderKey) (now : ℕ) (state : State) : State :=
  { state with
    targets := (state.targets.get key).elim state.targets fun entry =>
      state.targets.set key (entry.expire now)
    providers := provider.elim state.providers fun provider =>
      (state.providers.get provider).elim state.providers fun rate =>
        state.providers.set provider (rate.expire (tickOf now)) }

/-- What the circuit and the limits of a target refuse. -/
def targetRefusal (key : Key) (limits : Limits) (now : ℕ) (state : State) : Option Refusal :=
  match state.targets.get key with
  | some entry =>
    if entry.probe.isSome ∨ entry.openUntil.any (now < ·) then some .circuitOpen
    else if limits.model.any (!entry.rate.available ·) then some .rateLimited
    else none
  | none => if limits.model = some 0 then some .rateLimited else none

/-- The refusal of a provider limit. -/
def providerRefusal (key : Key) (limits : Limits) (state : State) : Option Refusal :=
  match limits.provider with
  | some (_, limit) =>
    if (((limits.providerKey key).bind state.providers.get).any (!·.available limit)) ∨ limit = 0
    then some .rateLimited else none
  | none => none

/-- The new entries of a request. -/
def missing (key : Key) (provider : Option ProviderKey) (state : State) : ℕ × ℕ :=
  ((state.targets.get key).elim 1 fun _ => 0,
    provider.elim 0 fun provider => (state.providers.get provider).elim 1 fun _ => 0)

/-- A request is within the budgets. -/
def fits (runtime : Runtime) (key : Key) (spare guardBytes : ℕ) (provider : Option ProviderKey)
    (state : State) : Bool :=
  let layout := runtime.layout
  let (target, provider') := state.missing key provider
  let count := state.targets.entries.length + state.providers.entries.length + target + provider'
  let bytes := state.usedBytes layout + guardBytes
    + target * (key.bytes + spare + layout.rateBytes + layout.sampleBytes)
    + provider' * (provider.elim 0 ProviderKey.bytes + layout.rateBytes)
    + state.targets.growthBytes layout.targetSlot target
    + state.providers.growthBytes layout.providerSlot provider'
  count ≤ runtime.maxEntries && bytes ≤ runtime.maxBytes

/-- Another owner can be counted and numbered. -/
def countable (key : Key) (provider : Option ProviderKey) (state : State) : Bool :=
  state.next < u64Max && state.active < u64Max
    && (state.targets.get key).all (·.rate.countable)
    && (provider.bind state.providers.get).all Rate.countable

end State

/-! ## Admission -/

/-- **A guard**: a call in flight. -/
structure Admission where
  key : Key
  provider : Option ProviderKey
  bytes : ℕ
  id : ℕ
  generation : ℕ
  sent : Option ℕ := none
  finished : Bool := false
deriving DecidableEq, Repr

/-- Both tables have room. The first may have grown though the second cannot. -/
def State.makeRoom (runtime : Runtime) (heap : Heap) (key : Key) (provider : Option ProviderKey)
    (state : State) : State × Bool :=
  let layout := runtime.layout
  let (target, provider') := state.missing key provider
  match state.targets.grow layout.targetSlot heap.targets state.targetBytes target with
  | none => (state, false)
  | some (targets, targetBytes) =>
    let state := { state with targets := targets, targetBytes := targetBytes }
    match state.providers.grow layout.providerSlot heap.providers state.providerBytes provider' with
    | none => (state, false)
    | some (providers, providerBytes) =>
      ({ state with providers := providers, providerBytes := providerBytes }, true)

/-- The target of an admission: a probe if the circuit has been open. -/
def Entry.admitOne (id now : ℕ) (entry : Entry) : Entry :=
  { entry with
    rate := entry.rate.admitOne
    probe := if entry.openUntil.isSome then some id else entry.probe
    touched := now }

/-- **An admission is booked.** -/
def State.book (layout : Layout) (key : Key) (provider : Option ProviderKey) (guardBytes now : ℕ)
    (state : State) : State × Admission :=
  let (target, provider') := state.missing key provider
  let entry := (state.targets.get key).getD (Entry.new now)
  let id := state.next + 1
  ({ state with
      targets := state.targets.set key (entry.admitOne id now)
      providers := provider.elim state.providers fun provider =>
        state.providers.set provider ((state.providers.get provider).getD {}).admitOne
      bytes := state.bytes + target * layout.targetCharge key
        + provider' * provider.elim 0 layout.providerCharge + guardBytes
      next := id
      active := state.active + 1 },
    ⟨key, provider, guardBytes, id, entry.generation, none, false⟩)

/-- **Admit a call**, or refuse it. A key that the caller passes may hold more bytes
than its texts are long. -/
def admitAt (runtime : Runtime) (heap : Heap) (key : Key) (spare : ℕ) (limits : Limits) (now : ℕ)
    (state : State) : State × Except Refusal Admission :=
  let provider := limits.providerKey key
  let guardBytes := runtime.layout.admissionSize + (key.bytes + spare)
    + provider.elim 0 ProviderKey.bytes
  if maxKeyBytes < key.bytes + limits.provider.elim 0 (·.1.utf8ByteSize)
      ∨ runtime.maxBytes < key.bytes + spare then (state, .error .capacity)
  else if runtime.maxInFlight ≤ state.active then (state, .error .capacity)
  else
    let state := state.expireOwn key provider now
    match (state.targetRefusal key limits now).or (state.providerRefusal key limits) with
    | some refusal => (state, .error refusal)
    | none =>
      let state := if state.fits runtime key spare guardBytes provider then state
        else state.reclaim runtime.layout heap now
      if !state.fits runtime key spare guardBytes provider then (state, .error .capacity)
      else if !state.countable key provider then (state, .error .capacity)
      else if state.missing key provider ≠ (0, 0) ∧ !heap.buffers then (state, .error .capacity)
      else
        let (state, room) := state.makeRoom runtime heap key provider
        if !room then (state, .error .capacity)
        else
          let (state, guard) := state.book runtime.layout key provider guardBytes now
          (state, .ok guard)

/-! ## Guards -/

/-- **A guard is sent.** -/
def sentAt (guard : Admission) (now : ℕ) (state : State) :
    State × Except Refusal Admission :=
  if guard.sent.isSome ∨ guard.finished then (state, .error .unavailable)
  else
    match state.targets.get guard.key with
    | none => (state, .error .unavailable)
    | some entry =>
      let targets := state.targets.set guard.key
        { entry with rate := entry.rate.sent (tickOf now) }
      match guard.provider with
      | none => ({ state with targets := targets }, .ok { guard with sent := some now })
      | some provider =>
        match state.providers.get provider with
        | none => ({ state with targets := targets }, .error .unavailable)
        | some rate =>
          ({ state with
              targets := targets
              providers := state.providers.set provider (rate.sent (tickOf now)) },
            .ok { guard with sent := some now })

/-- The target of a completion. -/
def Entry.finish (lastInstant : ℕ) (guard : Admission) (outcome : Outcome) (now : ℕ)
    (entry : Entry) : Entry :=
  let wasProbe : Bool := entry.probe = some guard.id
  let entry := { entry with
    rate := entry.rate.finish guard.sent.isSome
    touched := now
    probe := if wasProbe then none else entry.probe }
  match guard.sent with
  | none => entry
  | some started =>
    if guard.generation ≠ entry.generation then entry
    else entry.complete lastInstant now started wasProbe outcome

/-- **A guard is finished**, by its owner or because it is dropped. -/
def finishAt (runtime : Runtime) (guard : Admission) (outcome : Outcome) (now : ℕ) (state : State) :
    State × Admission :=
  if guard.finished then (state, guard)
  else
    ({ state with
        active := state.active - 1
        providers := guard.provider.elim state.providers fun provider =>
          (state.providers.get provider).elim state.providers fun rate =>
            state.providers.set provider (rate.finish guard.sent.isSome)
        targets := (state.targets.get guard.key).elim state.targets fun entry =>
          state.targets.set guard.key (entry.finish runtime.lastInstant guard outcome now) },
      { guard with finished := true })

/-- The copies a guard held are gone. -/
def State.released (guard : Admission) (state : State) : State :=
  { state with bytes := state.bytes - guard.bytes }

end BitRouter.Routing
