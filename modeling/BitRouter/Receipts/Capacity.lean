import BitRouter.Receipts.Evidence

/-!
# Receipt capacity

`receipts/capacity.rs`: the scalars that admission keeps under its mutex. A
grant reserves the bytes one completion may need; a repair reserves the bytes
of its rows; both are let in only while the volume, the high-water mark and
the bounds on unknown obligations leave room. The totals are `u64`, and every
sum of them is checked.

The probe of a volume is an input: `some free`, or `none` where it fails.
-/

namespace BitRouter.Receipts

/-- `u64::checked_sub`. -/
def checkedSub (a b : ℕ) : Option ℕ := if b ≤ a then some (a - b) else none

/-- `u64::checked_mul`. -/
def checkedMul (a b : ℕ) : Option ℕ := if a * b < 2 ^ 64 then some (a * b) else none

@[simp] theorem checkedAdd_eq_some {a b c : ℕ} :
    checkedAdd a b = some c ↔ a + b < 2 ^ 64 ∧ a + b = c := by
  rw [checkedAdd, Option.ite_none_right_eq_some, Option.some_inj]

@[simp] theorem checkedSub_eq_some {a b c : ℕ} :
    checkedSub a b = some c ↔ b ≤ a ∧ a - b = c := by
  rw [checkedSub, Option.ite_none_right_eq_some, Option.some_inj]

@[simp] theorem checkedMul_eq_some {a b c : ℕ} :
    checkedMul a b = some c ↔ a * b < 2 ^ 64 ∧ a * b = c := by
  rw [checkedMul, Option.ite_none_right_eq_some, Option.some_inj]

theorem checkedAdd_of_lt {a b : ℕ} (h : a + b < 2 ^ 64) : checkedAdd a b = some (a + b) :=
  checkedAdd_eq_some.mpr ⟨h, rfl⟩

theorem checkedSub_of_le {a b : ℕ} (h : b ≤ a) : checkedSub a b = some (a - b) :=
  checkedSub_eq_some.mpr ⟨h, rfl⟩

theorem checkedMul_of_lt {a b : ℕ} (h : a * b < 2 ^ 64) : checkedMul a b = some (a * b) :=
  checkedMul_eq_some.mpr ⟨h, rfl⟩

/-- The codes admission refuses with. -/
inductive ErrorCode
  | authorityUnavailable
  | capacityExceeded
  | storageUnavailable
  | payloadTooLarge
  deriving DecidableEq, Repr

def rowOverhead : ℕ := 16 * 1024

/-- The bytes one completion is promised. -/
def reservation : ℕ := 4 * 1024 * 1024

/-- The operator budget of receipts. -/
structure Limits where
  highWaterBytes : ℕ
  admissionFreeBytes : ℕ
  maintenanceFreeBytes : ℕ
  unknownInstance : ℕ
  unknownTenant : ℕ

/-- What the startup validation has counted. -/
structure Inventory where
  liveBytes : UInt64
  historyBytes : UInt64
  historyRows : UInt64
  oauthBytes : UInt64
  unknownCount : UInt64

structure Totals where
  reserved : ℕ := 0
  bytes : ℕ := 0
  historyBytes : ℕ := 0
  historyRows : ℕ := 0
  oauthBytes : ℕ := 0
  unknown : ℕ := 0
  uncovered : ℕ := 0
  live : ℕ := 0
  repairReserved : ℕ := 0
  repairLive : ℕ := 0
  deriving DecidableEq

structure Accounting where
  limits : Limits
  volume : Option String := none
  fenced : Bool := false
  free : ℕ := 2 ^ 64 - 1
  totals : Totals := {}
  physicalWriteReserved : ℕ := 0

variable {a : Accounting} {uncovered : ℕ}

namespace Accounting

def configured (limits : Limits) : Accounting where
  limits := limits

/-- Fresh observation of the bound volume. A failed one fences. -/
def refreshFree (a : Accounting) (probe : Option ℕ) : Accounting :=
  match a.volume, probe with
  | none, _ => a
  | some _, some free => { a with free := free }
  | some _, none => { a with fenced := true }

def observedFree (a : Accounting) (free : ℕ) : Accounting :=
  if a.volume.isNone then { a with free := free } else a

def physicalFit (a : Accounting) (bytes floor : ℕ) : Bool :=
  (do
    let n ← checkedAdd a.totals.reserved a.physicalWriteReserved
    let n ← checkedAdd n bytes
    checkedAdd n floor).any (fun n => n ≤ a.free)

/-- Ordinary writers require admission free space and preserve maintenance
space. Maintenance uses physical fit only. -/
def reservePhysicalWrite (a : Accounting) (bytes : ℕ) (maintenance : Bool) :
    Except ErrorCode Accounting := do
  ensure (a.fenced = false) .storageUnavailable
  ensure (maintenance ∨ a.limits.admissionFreeBytes ≤ a.free) .capacityExceeded
  ensure (a.physicalFit bytes (if maintenance then 0 else a.limits.maintenanceFreeBytes))
    .capacityExceeded
  let reserved ← orFail (checkedAdd a.physicalWriteReserved bytes) .capacityExceeded
  return { a with physicalWriteReserved := reserved }

def finishPhysicalWrite (a : Accounting) (bytes : ℕ) : Accounting × Except ErrorCode Unit :=
  match checkedSub a.physicalWriteReserved bytes with
  | none => ({ a with fenced := true }, .error .authorityUnavailable)
  | some remaining => ({ a with physicalWriteReserved := remaining }, .ok ())

/-- Complete startup validation is allowed above current operator budgets. -/
def initializeFrom (a : Accounting) (inventory : Inventory) (free : ℕ) :
    Except ErrorCode Accounting := do
  ensure (a.totals.live = 0 ∧ a.totals.reserved = 0 ∧ a.physicalWriteReserved = 0)
    .authorityUnavailable
  return { a with totals := { a.totals with
    bytes := inventory.liveBytes.toNat
    historyBytes := inventory.historyBytes.toNat
    historyRows := inventory.historyRows.toNat
    oauthBytes := inventory.oauthBytes.toNat
    unknown := inventory.unknownCount.toNat } }.observedFree free

/-- Run before a cold tenant count and again at grant time. -/
def globallyReady (a : Accounting) : Bool :=
  !a.fenced && a.limits.admissionFreeBytes ≤ a.free
    && a.physicalFit reservation a.limits.maintenanceFreeBytes
    && (do
      let n ← checkedAdd a.totals.bytes a.totals.reserved
      checkedAdd n reservation).any (fun n => n ≤ a.limits.highWaterBytes)
    && (checkedAdd a.totals.unknown a.totals.uncovered).any
      (fun n => n < a.limits.unknownInstance)

def ready (a : Accounting) (tenantUnknown tenantUncovered : ℕ) : Bool :=
  a.globallyReady
    && (checkedAdd tenantUnknown tenantUncovered).any (fun n => n < a.limits.unknownTenant)

def reserve (a : Accounting) (tenantUnknown tenantUncovered : ℕ) :
    Except ErrorCode Accounting := do
  ensure (a.ready tenantUnknown tenantUncovered) .capacityExceeded
  let reserved ← orFail (checkedAdd a.totals.reserved reservation) .capacityExceeded
  let live ← orFail (checkedAdd a.totals.live 1) .capacityExceeded
  let uncovered ← orFail (checkedAdd a.totals.uncovered 1) .capacityExceeded
  return { a with totals := { a.totals with
    reserved := reserved, live := live, uncovered := uncovered } }

def reserveRepair (a : Accounting) (bytes rows uncovered : ℕ) :
    Except ErrorCode (ℕ × Accounting) := do
  let overhead ← orFail (checkedMul rows rowOverhead) .capacityExceeded
  let charged ← orFail (checkedAdd overhead bytes) .capacityExceeded
  ensure (a.fenced = false) .storageUnavailable
  ensure (uncovered ≤ rows ∧ a.physicalFit charged 0) .capacityExceeded
  let reserved ← orFail (checkedAdd a.totals.reserved charged) .capacityExceeded
  let repairReserved ← orFail (checkedAdd a.totals.repairReserved charged) .capacityExceeded
  let live ← orFail (checkedAdd a.totals.live rows) .capacityExceeded
  let repairLive ← orFail (checkedAdd a.totals.repairLive rows) .capacityExceeded
  let uncovered ← orFail (checkedAdd a.totals.uncovered uncovered) .capacityExceeded
  return (charged, { a with totals := { a.totals with
    reserved := reserved, repairReserved := repairReserved
    live := live, repairLive := repairLive, uncovered := uncovered } })

/-! ## What a success says -/

theorem reserve_eq_ok {b : Accounting} {unknown : ℕ} :
    a.reserve unknown uncovered = .ok b ↔
      a.ready unknown uncovered = true ∧ a.totals.reserved + reservation < 2 ^ 64
        ∧ a.totals.live + 1 < 2 ^ 64 ∧ a.totals.uncovered + 1 < 2 ^ 64
        ∧ b = { a with totals := { a.totals with
            reserved := a.totals.reserved + reservation
            live := a.totals.live + 1
            uncovered := a.totals.uncovered + 1 } } := by
  unfold reserve
  simp only [bind_eq_ok, ensure_eq_ok, orFail_eq_ok, pure_eq_ok, checkedAdd_eq_some]
  constructor
  · rintro ⟨-, hready, _, ⟨hr, rfl⟩, _, ⟨hl, rfl⟩, _, ⟨hu, rfl⟩, rfl⟩
    exact ⟨hready, hr, hl, hu, rfl⟩
  · rintro ⟨hready, hr, hl, hu, rfl⟩
    exact ⟨(), hready, _, ⟨hr, rfl⟩, _, ⟨hl, rfl⟩, _, ⟨hu, rfl⟩, rfl⟩

theorem reserveRepair_eq_ok {b : Accounting} {bytes rows charged : ℕ}
    (h : a.reserveRepair bytes rows uncovered = .ok (charged, b)) :
    charged = rows * rowOverhead + bytes ∧ a.fenced = false ∧ uncovered ≤ rows
      ∧ a.totals.reserved + charged < 2 ^ 64
      ∧ b = { a with totals := { a.totals with
          reserved := a.totals.reserved + charged
          repairReserved := a.totals.repairReserved + charged
          live := a.totals.live + rows
          repairLive := a.totals.repairLive + rows
          uncovered := a.totals.uncovered + uncovered } } := by
  unfold reserveRepair at h
  simp only [bind_eq_ok, ensure_eq_ok, orFail_eq_ok, pure_eq_ok, checkedAdd_eq_some,
    checkedMul_eq_some, Prod.mk.injEq] at h
  obtain ⟨_, ⟨-, rfl⟩, _, ⟨-, rfl⟩, -, hfence, -, ⟨hle, -⟩, _, ⟨hr, rfl⟩, _, ⟨-, rfl⟩,
    _, ⟨-, rfl⟩, _, ⟨-, rfl⟩, _, ⟨-, rfl⟩, rfl, rfl⟩ := h
  exact ⟨rfl, hfence, hle, hr, rfl⟩

/-- A tenant that is ready has room for one more obligation, and the volume
for one more reservation. -/
theorem ready_eq_true {unknown : ℕ} (h : a.ready unknown uncovered = true) :
    a.fenced = false ∧ a.totals.reserved + reservation < 2 ^ 64
      ∧ unknown + uncovered < a.limits.unknownTenant ∧ unknown + uncovered < 2 ^ 64
      ∧ a.totals.unknown + a.totals.uncovered < a.limits.unknownInstance
      ∧ a.totals.unknown + a.totals.uncovered < 2 ^ 64 := by
  simp only [ready, globallyReady, Bool.and_eq_true, Bool.not_eq_true', Option.any_eq_true,
    decide_eq_true_eq, checkedAdd_eq_some, Option.bind_eq_some_iff, bind] at h
  obtain ⟨⟨⟨⟨⟨hfence, -⟩, -⟩, _, ⟨n, ⟨-, rfl⟩, hsum, -⟩, -⟩, _, ⟨hinst, rfl⟩, hbound⟩,
    _, ⟨hten, rfl⟩, htenant⟩ := h
  exact ⟨hfence, by omega, htenant, hten, hbound, hinst⟩

/-! ## What leaves the totals as they are -/

theorem reservePhysicalWrite_totals {b : Accounting} {bytes : ℕ} {maintenance : Bool}
    (h : a.reservePhysicalWrite bytes maintenance = .ok b) : b.totals = a.totals := by
  unfold reservePhysicalWrite at h
  simp only [bind_eq_ok, ensure_eq_ok, orFail_eq_ok, pure_eq_ok] at h
  obtain ⟨_, -, _, -, _, -, _, -, rfl⟩ := h
  rfl

theorem finishPhysicalWrite_totals (a : Accounting) (bytes : ℕ) :
    (a.finishPhysicalWrite bytes).1.totals = a.totals := by
  unfold finishPhysicalWrite
  split <;> rfl

theorem observedFree_totals (a : Accounting) (free : ℕ) :
    (a.observedFree free).totals = a.totals := by
  unfold observedFree
  split <;> rfl

end Accounting

end BitRouter.Receipts
