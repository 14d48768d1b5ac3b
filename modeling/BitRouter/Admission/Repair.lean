import BitRouter.Admission.Unknown

/-!
# Repairs

`admission/repair.rs`: a bounded group of rows repaired under the physical
custody of admission, without a claim to its ordinary slots. Every row is an
entry of its own owner until the repair is finished.
-/

namespace BitRouter.Admission

open Tenancy
open Receipts (ErrorCode Totals checkedAdd checkedSub)

/-- **Custody of a group of repair rows.** A finished one is no longer owned. -/
structure Repair where
  tenant : TenantId
  charged : ℕ
  keys : List Key
  deriving DecidableEq

/-- The rows a repair is about: every one carries whether its obligation is
on record already. The owners are allocated from `owner` on. -/
def repairRows (tenant : TenantId) : ℕ → List (ExecutionId × Bool) → List (Key × Live)
  | _, [] => []
  | owner, (execution, covered) :: rest =>
    (⟨tenant, execution⟩, { owner := owner, covered := covered, repair := true })
      :: repairRows tenant (owner + 1) rest

namespace State

/-- Enter one repair row, and bind its owner. -/
def enterRow (s : State) (row : Key × Live) : State :=
  { s with
    executions := s.executions.insert row.1 row.2
    completions := Function.update s.completions row.2.owner
      { execution := some row.1.execution } }

def reserveRepair (s : State) (read : Read) (tenant : TenantId) (bytes : ℕ)
    (entries : List (ExecutionId × Bool)) (owner : ℕ) : Except ErrorCode (Repair × State) := do
  ensure (read.maintenance = true) .authorityUnavailable
  ensure (entries.map Prod.fst).Nodup .authorityUnavailable
  let rows := repairRows tenant owner entries
  let uncovered := rows.countP (fun row => !row.2.covered)
  ensure (rows ≠ []) .authorityUnavailable
  s.checkRead read
  s.unknownAvailable true
  ensure (rows.all (fun row => row.1 ∉ s.executions)) .authorityUnavailable
  let c := s.counts tenant
  let repairs ← orFail (checkedAdd c.repairs rows.length) .capacityExceeded
  let tenantUncovered ← orFail (checkedAdd c.uncovered uncovered) .capacityExceeded
  let (charged, receipts) ← s.receipts.reserveRepair bytes rows.length uncovered
  let s := { s with receipts := receipts }.setCounts tenant
    { c with repairs := repairs, uncovered := tenantUncovered }
  return ({ tenant := tenant, charged := charged, keys := rows.map Prod.fst },
    rows.foldl enterRow s)

/-- The uncovered rows of a repair that may be finished. -/
def repairUncovered (s : State) (committed : Bool) : List Key → Except ErrorCode ℕ
  | [] => .ok 0
  | key :: keys => do
    let live ← orFail s.executions[key]? .authorityUnavailable
    ensure (live.repair = true ∧ live.pending = false
      ∧ (s.completions live.owner).done = false ∧ (committed → live.published = true))
      .authorityUnavailable
    let rest ← repairUncovered s committed keys
    orFail (checkedAdd (!live.covered).toNat rest) .authorityUnavailable

/-- The totals without a finished repair. -/
def releaseRepair (totals : Totals) (rows charged uncovered : ℕ) (committed : Bool) :
    Except ErrorCode Totals := do
  let live ← orFail (checkedSub totals.live rows) .authorityUnavailable
  let repairLive ← orFail (checkedSub totals.repairLive rows) .authorityUnavailable
  let uncovered ← orFail (checkedSub totals.uncovered uncovered) .authorityUnavailable
  let reserved ← orFail (checkedSub totals.reserved charged) .authorityUnavailable
  let repairReserved ← orFail (checkedSub totals.repairReserved charged) .authorityUnavailable
  let bytes ← if committed then orFail (checkedAdd totals.bytes charged) .authorityUnavailable
    else pure totals.bytes
  return { totals with
    live := live, repairLive := repairLive, uncovered := uncovered
    reserved := reserved, repairReserved := repairReserved, bytes := bytes }

/-- **Finish a repair** of a known outcome. -/
def finishRepair (s : State) (r : Repair) (committed : Bool) : Except ErrorCode State := do
  ensure (s.publicationPending = none ∧ s.receipts.fenced = false) .authorityUnavailable
  let uncovered ← s.repairUncovered committed r.keys
  let c ← orFail s.tenants[r.tenant]? .authorityUnavailable
  let remaining ← orFail (checkedSub c.repairs r.keys.length) .authorityUnavailable
  let tenantUncovered ← orFail (checkedSub c.uncovered uncovered) .authorityUnavailable
  let totals ← releaseRepair s.receipts.totals r.keys.length r.charged uncovered committed
  let s := { s with receipts := { s.receipts with totals := totals } }.setCounts r.tenant
    { c with repairs := remaining, uncovered := tenantUncovered }
  let s := { s with executions := r.keys.foldl Std.TreeMap.erase s.executions }
  return s.idle r.tenant

end State

end BitRouter.Admission
