import BitRouter.Data.Run
import BitRouter.Shared.Store
import Mathlib.Data.List.Nodup

/-!
# Delivery of a terminal event

An outbox record is claimed under a lease, and acknowledged or rescheduled by
the holder of that lease. Each operation is one transaction on the record;
`World` runs transactions of any workers in any order, and keeps the claims
that were committed.

`Delivered` is the invariant of all runs. `delivery` reads off it what a
worker may rely on, and `exhausted_unclaimable` shows the one place where
delivery ends without an acknowledgement: the delivery counter.
-/

namespace BitRouter.Shared

variable {E : Type} [DecidableEq E]

/-! ## The record and its transactions -/

structure OutboxLease where
  token : String
  expiresAtMs : ℤ
deriving DecidableEq, Repr

/-- An outbox record. Its event is compared and handed out, never read. -/
structure Outbox (E : Type) where
  event : E
  lease : Option OutboxLease := none
  deliveries : ℕ := 0
  acknowledgedAtMs : Option ℤ := none
deriving DecidableEq, Repr

structure DeliveryClaim (E : Type) where
  event : E
  token : String
deriving DecidableEq, Repr

/-- `u32::MAX`. -/
def maxDeliveries : ℕ := 2 ^ 32 - 1

namespace Outbox

/-- The range of lease durations and of retry delays. -/
def durationRange (ms : ℤ) : Prop := 100 ≤ ms ∧ ms ≤ 300000

instance (ms : ℤ) : Decidable (durationRange ms) := inferInstanceAs (Decidable (_ ∧ _))

/-- Is the record not to be claimed at `now`? -/
def held (outbox : Stored (Outbox E)) (now : ℤ) : Prop :=
  outbox.value.acknowledgedAtMs.isSome
    ∨ ¬ (outbox.dueAtMs.any (fun due => due ≤ now))
    ∨ outbox.value.lease.any (fun lease => now < lease.expiresAtMs)

instance (outbox : Stored (Outbox E)) (now : ℤ) : Decidable (held outbox now) :=
  inferInstanceAs (Decidable (_ ∨ _))

/-- The claiming transaction on one record. It reads the clock twice, at
`now` for the check and at `granted` for the lease; `owner` is whether the
instance of the worker is live in between. -/
def claim (fits : Outbox E → Bool) (outbox : Stored (Outbox E)) (token : String) (leaseMs : ℤ)
    (owner : Bool) (now granted : ℤ) :
    Except Failure (Option (DeliveryClaim E) × Stored (Outbox E)) := do
  ensure (durationRange leaseMs) (.context "invalid outbox lease duration")
  if held outbox now then
    return (none, outbox)
  else do
    ensure owner .unavailable
    let expiresAtMs ← orFail (checkedAddI64 granted leaseMs)
      (.context "outbox lease clock overflow")
    ensure (outbox.value.deliveries + 1 ≤ maxDeliveries)
      (.context "outbox delivery count overflow")
    let saved ← save fits outbox
      { outbox.value with
        lease := some { token, expiresAtMs }
        deliveries := outbox.value.deliveries + 1 }
      "pending" (some expiresAtMs) granted
    return (some { event := outbox.value.event, token }, saved)

def acknowledge (fits : Outbox E → Bool) (outbox : Stored (Outbox E)) (c : DeliveryClaim E)
    (now : ℤ) : Except Failure (Stored (Outbox E)) := do
  ensure (outbox.value.event = c.event) (.context "outbox event content changed")
  let lease ← orFail outbox.value.lease (.context "outbox delivery lease is missing")
  ensure (lease.token = c.token) .authorityChanged
  if outbox.value.acknowledgedAtMs.isSome then
    return outbox
  else do
    ensure (now < lease.expiresAtMs) .authorityChanged
    save fits outbox { outbox.value with acknowledgedAtMs := some now } "delivered" none now

def retry (fits : Outbox E → Bool) (outbox : Stored (Outbox E)) (c : DeliveryClaim E)
    (delayMs : ℤ) (now : ℤ) : Except Failure (Stored (Outbox E)) := do
  ensure (durationRange delayMs) (.context "invalid outbox retry delay")
  let lease ← orFail outbox.value.lease (.context "outbox delivery lease is missing")
  ensure (lease.token = c.token ∧ now < lease.expiresAtMs ∧ outbox.value.acknowledgedAtMs = none)
    .authorityChanged
  let due ← orFail (checkedAddI64 now delayMs) (.context "outbox retry clock overflow")
  save fits outbox { outbox.value with lease := none } "pending" (some due) now

end Outbox

/-! ## Runs -/

inductive OutboxStep (E : Type)
  | claim (token : String) (leaseMs : ℤ) (owner : Bool) (now granted : ℤ)
  | acknowledge (c : DeliveryClaim E) (now : ℤ)
  | retry (c : DeliveryClaim E) (delayMs now : ℤ)
deriving DecidableEq

/-- One record, the database clock, and the claims that were committed, in
order. -/
structure OutboxWorld (E : Type) where
  row : Stored (Outbox E)
  clock : ℤ
  claims : List (DeliveryClaim E) := []
deriving DecidableEq

namespace OutboxWorld

/-- The record that finalization publishes. -/
def published (event : E) (now : ℤ) : OutboxWorld E :=
  { row :=
      { value := { event }
        revision := 0
        status := "pending"
        dueAtMs := some now
        updatedAtMs := now }
    clock := now }

/-- One transaction of some worker. A claim brings a token that was not used
before, the other two an earlier claim; a transaction that fails changes
nothing. -/
def step (fits : Outbox E → Bool) (w : OutboxWorld E) : OutboxStep E → Option (OutboxWorld E)
  | .claim token leaseMs owner now granted =>
    if token ∈ w.claims.map DeliveryClaim.token ∨ now < w.clock ∨ granted < now then none
    else match Outbox.claim fits w.row token leaseMs owner now granted with
      | .error _ => some { w with clock := granted }
      | .ok (c, row) => some { row, clock := granted, claims := w.claims ++ c.toList }
  | .acknowledge c now =>
    if c ∉ w.claims ∨ now < w.clock then none
    else match Outbox.acknowledge fits w.row c now with
      | .error _ => some { w with clock := now }
      | .ok row => some { w with row, clock := now }
  | .retry c delayMs now =>
    if c ∉ w.claims ∨ now < w.clock then none
    else match Outbox.retry fits w.row c delayMs now with
      | .error _ => some { w with clock := now }
      | .ok row => some { w with row, clock := now }

def run (fits : Outbox E → Bool) (w : OutboxWorld E) (steps : List (OutboxStep E)) :
    Option (OutboxWorld E) :=
  steps.foldlM (step fits) w

end OutboxWorld

/-! ## What a transaction does -/

variable {c : DeliveryClaim E} {fits : Outbox E → Bool} {granted leaseMs now : ℤ} {owner : Bool}
  {r : Option (DeliveryClaim E) × Stored (Outbox E)} {row : Stored (Outbox E)} {token : String}

namespace Outbox

/-- The record a claim leaves. -/
def claimed (row : Stored (Outbox E)) (token : String) (expiresAtMs granted : ℤ) :
    Stored (Outbox E) :=
  { value := { row.value with
      lease := some { token, expiresAtMs }
      deliveries := row.value.deliveries + 1 }
    revision := row.revision + 1
    status := "pending"
    dueAtMs := some expiresAtMs
    updatedAtMs := granted }

omit [DecidableEq E] in
/-- **A claim of a free record** is committed exactly when the owner is live
and nothing overflows. -/
theorem claim_eq_ok (hfree : ¬ held row now) :
    claim fits row token leaseMs owner now granted = .ok r ↔
      durationRange leaseMs ∧ owner = true ∧ granted + leaseMs ≤ i64Max
        ∧ row.value.deliveries + 1 ≤ maxDeliveries ∧ (row.revision : ℤ) + 1 ≤ i64Max
        ∧ fits (claimed row token (granted + leaseMs) granted).value = true
        ∧ (some { event := row.value.event, token },
            claimed row token (granted + leaseMs) granted) = r := by
  unfold claim
  rw [if_neg hfree]
  constructor
  · intro h
    obtain ⟨_, hrange, h⟩ := bind_eq_ok.mp h
    obtain ⟨_, howner, h⟩ := bind_eq_ok.mp h
    obtain ⟨expires, hexpires, h⟩ := bind_eq_ok.mp h
    obtain ⟨_, hroom, h⟩ := bind_eq_ok.mp h
    obtain ⟨saved, hsaved, h⟩ := bind_eq_ok.mp h
    obtain ⟨hclock, rfl⟩ := checkedAddI64_eq_some.mp (orFail_eq_ok.mp hexpires)
    obtain ⟨hrevision, hfits, rfl⟩ := save_eq_ok.mp hsaved
    exact ⟨ensure_eq_ok.mp hrange, ensure_eq_ok.mp howner, hclock, ensure_eq_ok.mp hroom,
      hrevision, hfits, pure_eq_ok.mp h⟩
  · rintro ⟨hrange, howner, hclock, hroom, hrevision, hfits, hr⟩
    refine bind_eq_ok.mpr ⟨(), ensure_eq_ok.mpr hrange, ?_⟩
    refine bind_eq_ok.mpr ⟨(), ensure_eq_ok.mpr howner, ?_⟩
    refine bind_eq_ok.mpr ⟨_, orFail_eq_ok.mpr (checkedAddI64_eq_some.mpr ⟨hclock, rfl⟩), ?_⟩
    refine bind_eq_ok.mpr ⟨(), ensure_eq_ok.mpr hroom, ?_⟩
    exact bind_eq_ok.mpr ⟨_, save_eq_ok.mpr ⟨hrevision, hfits, rfl⟩, pure_eq_ok.mpr hr⟩

omit [DecidableEq E] in
theorem claim_of_held (hheld : held row now)
    (h : claim fits row token leaseMs owner now granted = .ok r) : (none, row) = r := by
  unfold claim at h
  rw [if_pos hheld] at h
  obtain ⟨_, -, h⟩ := bind_eq_ok.mp h
  exact pure_eq_ok.mp h

/-- **An acknowledgement** that succeeds brings the token of the lease; it
changes nothing where the event is acknowledged, and otherwise the lease has
not expired. -/
theorem acknowledge_eq_ok {row' : Stored (Outbox E)} (h : acknowledge fits row c now = .ok row') :
    ∃ lease, row.value.lease = some lease ∧ lease.token = c.token ∧
      ((row.value.acknowledgedAtMs.isSome ∧ row' = row)
        ∨ (row.value.acknowledgedAtMs = none ∧ now < lease.expiresAtMs
            ∧ row' = { value := { row.value with acknowledgedAtMs := some now }
                       revision := row.revision + 1
                       status := "delivered"
                       dueAtMs := none
                       updatedAtMs := now })) := by
  obtain ⟨_, -, h⟩ := bind_eq_ok.mp h
  obtain ⟨lease, hlease, h⟩ := bind_eq_ok.mp h
  obtain ⟨_, htoken, h⟩ := bind_eq_ok.mp h
  refine ⟨lease, orFail_eq_ok.mp hlease, ensure_eq_ok.mp htoken, ?_⟩
  by_cases hdone : row.value.acknowledgedAtMs.isSome
  · rw [if_pos hdone] at h
    exact Or.inl ⟨hdone, (pure_eq_ok.mp h).symm⟩
  · rw [if_neg hdone] at h
    obtain ⟨_, hlive, h⟩ := bind_eq_ok.mp h
    obtain ⟨-, -, rfl⟩ := save_eq_ok.mp h
    exact Or.inr ⟨by simpa using hdone, ensure_eq_ok.mp hlive, rfl⟩

omit [DecidableEq E] in
/-- **A retry** that succeeds brings the token of an unexpired lease and ends
it. -/
theorem retry_eq_ok {row' : Stored (Outbox E)} {delayMs : ℤ}
    (h : retry fits row c delayMs now = .ok row') :
    ∃ lease, row.value.lease = some lease ∧ lease.token = c.token ∧ now < lease.expiresAtMs
      ∧ row.value.acknowledgedAtMs = none
      ∧ row' = { value := { row.value with lease := none }
                 revision := row.revision + 1
                 status := "pending"
                 dueAtMs := some (now + delayMs)
                 updatedAtMs := now } := by
  obtain ⟨_, -, h⟩ := bind_eq_ok.mp h
  obtain ⟨lease, hlease, h⟩ := bind_eq_ok.mp h
  obtain ⟨_, hchecked, h⟩ := bind_eq_ok.mp h
  obtain ⟨due, hdue, h⟩ := bind_eq_ok.mp h
  obtain ⟨htoken, hlive, hopen⟩ := ensure_eq_ok.mp hchecked
  obtain ⟨-, rfl⟩ := checkedAddI64_eq_some.mp (orFail_eq_ok.mp hdue)
  obtain ⟨-, -, rfl⟩ := save_eq_ok.mp h
  exact ⟨lease, orFail_eq_ok.mp hlease, htoken, hlive, hopen, rfl⟩

end Outbox

/-- **What a step does** to the record and the claims. -/
inductive OutboxMove (w : OutboxWorld E) : OutboxWorld E → Prop
  | idle (clock : ℤ) : OutboxMove w { w with clock }
  | claimed (token : String) (expiresAtMs granted : ℤ)
      (fresh : token ∉ w.claims.map DeliveryClaim.token)
      (unacknowledged : w.row.value.acknowledgedAtMs = none)
      (room : w.row.value.deliveries + 1 ≤ maxDeliveries) :
      OutboxMove w
        { row := Outbox.claimed w.row token expiresAtMs granted
          clock := granted
          claims := w.claims ++ [{ event := w.row.value.event, token }] }
  | acknowledged (lease : OutboxLease) (now : ℤ) (leased : w.row.value.lease = some lease)
      (unacknowledged : w.row.value.acknowledgedAtMs = none) :
      OutboxMove w
        { w with
          row :=
            { value := { w.row.value with acknowledgedAtMs := some now }
              revision := w.row.revision + 1
              status := "delivered"
              dueAtMs := none
              updatedAtMs := now }
          clock := now }
  | rescheduled (lease : OutboxLease) (due now : ℤ) (leased : w.row.value.lease = some lease)
      (unacknowledged : w.row.value.acknowledgedAtMs = none) :
      OutboxMove w
        { w with
          row :=
            { value := { w.row.value with lease := none }
              revision := w.row.revision + 1
              status := "pending"
              dueAtMs := some due
              updatedAtMs := now }
          clock := now }

theorem OutboxWorld.move_of_step {w w' : OutboxWorld E} {s : OutboxStep E}
    (h : w.step fits s = some w') : OutboxMove w w' := by
  cases s with
  | claim token leaseMs owner now granted =>
    simp only [step] at h
    split at h
    · simp at h
    rename_i hguard
    split at h
    · obtain rfl := Option.some.inj h
      exact .idle granted
    · rename_i c row hclaim
      obtain rfl := Option.some.inj h
      by_cases hheld : Outbox.held w.row now
      · obtain ⟨rfl, rfl⟩ := Prod.mk.inj (Outbox.claim_of_held hheld hclaim)
        show OutboxMove w { row := w.row, clock := granted, claims := w.claims ++ [] }
        rw [List.append_nil]
        exact .idle granted
      · obtain ⟨-, -, -, hroom, -, -, hr⟩ := (Outbox.claim_eq_ok hheld).mp hclaim
        obtain ⟨rfl, rfl⟩ := Prod.mk.inj hr
        refine .claimed token (granted + leaseMs) granted
          (fun hmem => hguard (Or.inl hmem)) ?_ hroom
        simpa using fun hack => hheld (Or.inl hack)
  | acknowledge c now =>
    simp only [step] at h
    split at h
    · simp at h
    split at h
    · obtain rfl := Option.some.inj h
      exact .idle now
    · rename_i row hack
      obtain rfl := Option.some.inj h
      obtain ⟨lease, hlease, -, ⟨-, rfl⟩ | ⟨hopen, -, rfl⟩⟩ := Outbox.acknowledge_eq_ok hack
      · exact .idle now
      · exact .acknowledged lease now hlease hopen
  | retry c delayMs now =>
    simp only [step] at h
    split at h
    · simp at h
    split at h
    · obtain rfl := Option.some.inj h
      exact .idle now
    · rename_i row hretry
      obtain rfl := Option.some.inj h
      obtain ⟨lease, hlease, -, -, hopen, rfl⟩ := Outbox.retry_eq_ok hretry
      exact .rescheduled lease (now + delayMs) now hlease hopen

/-- A claim that is committed is a step. -/
theorem OutboxWorld.step_claim {w : OutboxWorld E}
    (hfresh : token ∉ w.claims.map DeliveryClaim.token) (hclock : ¬ now < w.clock)
    (hgranted : ¬ granted < now)
    (hclaim : Outbox.claim fits w.row token leaseMs owner now granted = .ok r) :
    w.step fits (.claim token leaseMs owner now granted)
      = some { row := r.2, clock := granted, claims := w.claims ++ r.1.toList } := by
  rw [step, if_neg (by simp only [hfresh, hclock, hgranted, or_self, not_false_eq_true]), hclaim]

/-! ## The invariant of all runs -/

/-- **What holds of a record in every run** from its publication. -/
structure Delivered (event : E) (w : OutboxWorld E) : Prop where
  event_eq : w.row.value.event = event
  claimed : ∀ c ∈ w.claims, c.event = event
  fresh : (w.claims.map DeliveryClaim.token).Nodup
  counted : w.row.value.deliveries = w.claims.length
  bounded : w.row.value.deliveries ≤ maxDeliveries
  latest : ∀ lease, w.row.value.lease = some lease →
    ∃ c, w.claims.getLast? = some c ∧ c.token = lease.token
  pending : w.row.value.acknowledgedAtMs = none →
    w.row.status = "pending" ∧ ∃ due, w.row.dueAtMs = some due
      ∧ ∀ lease, w.row.value.lease = some lease → lease.expiresAtMs ≤ due
  -- a retry ends a lease that a claim began, and one acknowledgement ends the run of both
  revised : w.row.revision + w.row.value.lease.isSome.toNat
    ≤ 2 * w.claims.length + w.row.value.acknowledgedAtMs.isSome.toNat

namespace Delivered

omit [DecidableEq E] in
theorem published (event : E) (now : ℤ) : Delivered event (OutboxWorld.published event now) where
  event_eq := rfl
  claimed c hc := absurd hc List.not_mem_nil
  fresh := List.nodup_nil
  counted := rfl
  bounded := Nat.zero_le _
  latest lease h := by cases h
  pending _ := ⟨rfl, now, rfl, fun lease h => by cases h⟩
  revised := Nat.le_refl 0

variable {event : E} {w w' : OutboxWorld E}

omit [DecidableEq E] in
theorem move (h : Delivered event w) (hmove : OutboxMove w w') : Delivered event w' := by
  cases hmove with
  | idle clock => exact { h with }
  | claimed token expiresAtMs granted fresh unacknowledged room =>
    refine
      { event_eq := h.event_eq
        claimed := ?_
        fresh := ?_
        counted := ?_
        bounded := room
        latest := ?_
        pending := ?_
        revised := ?_ }
    · intro c hc
      rcases List.mem_append.mp hc with hc | hc
      · exact h.claimed c hc
      · rw [List.mem_singleton.mp hc]
        exact h.event_eq
    · show ((w.claims ++ [_]).map DeliveryClaim.token).Nodup
      rw [List.map_append]
      exact h.fresh.append (List.nodup_singleton _)
        (List.disjoint_singleton.mpr fresh)
    · show w.row.value.deliveries + 1 = (w.claims ++ [_]).length
      rw [List.length_append, List.length_singleton, h.counted]
    · intro lease hlease
      obtain rfl := Option.some.inj hlease
      exact ⟨_, List.getLast?_concat, rfl⟩
    · refine fun _ => ⟨rfl, expiresAtMs, rfl, fun lease hlease => ?_⟩
      obtain rfl := Option.some.inj hlease
      exact le_refl _
    · have hrevised := h.revised
      simp only [unacknowledged, Option.isSome_none, Bool.toNat_false] at hrevised
      show w.row.revision + 1 + 1 ≤ 2 * (w.claims ++ [_]).length + _
      rw [List.length_append, List.length_singleton]
      omega
  | acknowledged lease now leased unacknowledged =>
    refine { h with pending := fun hnone => absurd hnone (by simp), revised := ?_ }
    have hrevised := h.revised
    simp only [leased, unacknowledged, Option.isSome_none, Option.isSome_some,
      Bool.toNat_false, Bool.toNat_true] at hrevised
    show w.row.revision + 1 + w.row.value.lease.isSome.toNat ≤ 2 * w.claims.length + 1
    simp only [leased, Option.isSome_some, Bool.toNat_true]
    omega
  | rescheduled lease due now leased unacknowledged =>
    refine
      { h with
        latest := fun lease' h' => absurd h' (by simp)
        pending := fun _ => ⟨rfl, due, rfl, fun lease' h' => absurd h' (by simp)⟩
        revised := ?_ }
    have hrevised := h.revised
    simp only [leased, unacknowledged, Option.isSome_none, Option.isSome_some,
      Bool.toNat_false, Bool.toNat_true] at hrevised
    show w.row.revision + 1 + 0 ≤ 2 * w.claims.length + _
    omega

theorem run {fits : Outbox E → Bool} (h : Delivered event w) {steps : List (OutboxStep E)}
    (hrun : w.run fits steps = some w') : Delivered event w' :=
  foldlM_preserves (fun _ _ _ hs hstep => hs.move (OutboxWorld.move_of_step hstep)) steps h hrun

omit [DecidableEq E] in
theorem revision_lt (h : Delivered event w) : (w.row.revision : ℤ) + 1 ≤ i64Max := by
  have hrevised := h.revised
  have hcounted := h.counted
  have hbounded := h.bounded
  have hack := Bool.toNat_le w.row.value.acknowledgedAtMs.isSome
  unfold maxDeliveries at hbounded
  unfold i64Max
  omega

omit [DecidableEq E] in
theorem free (h : Delivered event w) (hopen : w.row.value.acknowledgedAtMs = none)
    (hdue : ∀ due, w.row.dueAtMs = some due → due ≤ now) : ¬ Outbox.held w.row now := by
  obtain ⟨-, due, hat, hlease⟩ := h.pending hopen
  rintro (hack | hwait | hleased)
  · simp [hopen] at hack
  · simp [hat, hdue due hat] at hwait
  · cases hsome : w.row.value.lease with
    | none => simp [hsome] at hleased
    | some lease =>
      have hexpires := hlease lease hsome
      have hnow := hdue due hat
      simp only [hsome, Option.any_some, decide_eq_true_eq] at hleased
      omega

omit [DecidableEq E] in
theorem eq_latest (h : Delivered event w) {lease : OutboxLease}
    (hlease : w.row.value.lease = some lease) (hc : c ∈ w.claims) (htoken : lease.token = c.token) :
    w.claims.getLast? = some c := by
  obtain ⟨c', hlast, htoken'⟩ := h.latest lease hlease
  have hmem := List.mem_of_getLast? hlast
  rw [hlast, List.inj_on_of_nodup_map h.fresh hmem hc (htoken'.trans htoken)]

end Delivered

omit [DecidableEq E] in
/-- **An acknowledged event is settled**: no step claims it or changes when
it was acknowledged. -/
theorem OutboxMove.settled {w w' : OutboxWorld E} (h : OutboxMove w w') {t : ℤ}
    (hack : w.row.value.acknowledgedAtMs = some t) :
    w'.row.value.acknowledgedAtMs = some t ∧ w'.claims = w.claims := by
  cases h with
  | idle clock => exact ⟨hack, rfl⟩
  | claimed token expiresAtMs granted fresh unacknowledged =>
    exact absurd (hack.symm.trans unacknowledged) (by simp)
  | acknowledged lease now leased unacknowledged =>
    exact absurd (hack.symm.trans unacknowledged) (by simp)
  | rescheduled lease due now leased unacknowledged =>
    exact absurd (hack.symm.trans unacknowledged) (by simp)

theorem OutboxWorld.run_settled {w w' : OutboxWorld E} {steps : List (OutboxStep E)}
    (hrun : w.run fits steps = some w') {t : ℤ} (hack : w.row.value.acknowledgedAtMs = some t) :
    w'.row.value.acknowledgedAtMs = some t ∧ w'.claims = w.claims := by
  refine foldlM_preserves (P := fun v => v.row.value.acknowledgedAtMs = some t
    ∧ v.claims = w.claims) (fun v s v' hv hstep => ?_) steps ⟨hack, rfl⟩ hrun
  obtain ⟨hv', hclaims⟩ := (OutboxWorld.move_of_step hstep).settled hv.1
  exact ⟨hv', hclaims.trans hv.2⟩

/-! ## Delivery -/

/-- **What delivery guarantees**, in every state a run of any workers can
reach: only the latest claim, under an unexpired lease, can acknowledge or
reschedule the event; an acknowledged event stays so and is not claimed
again; one that is not acknowledged is pending, due at some time, and is
claimed by whoever claims it from that time on, unless the delivery counter,
the clock or the size of the record is exhausted; the event stays the same
and every delivery is counted. -/
theorem delivery (fits : Outbox E → Bool) (event : E) (start : ℤ) (steps : List (OutboxStep E))
    {w : OutboxWorld E} (hrun : (OutboxWorld.published event start).run fits steps = some w) :
    (∀ c ∈ w.claims, ∀ now row, Outbox.acknowledge fits w.row c now = .ok row → row ≠ w.row →
        w.claims.getLast? = some c ∧ ∃ lease, w.row.value.lease = some lease
          ∧ lease.token = c.token ∧ now < lease.expiresAtMs)
      ∧ (∀ c ∈ w.claims, ∀ delayMs now row, Outbox.retry fits w.row c delayMs now = .ok row →
        w.claims.getLast? = some c ∧ ∃ lease, w.row.value.lease = some lease
          ∧ lease.token = c.token ∧ now < lease.expiresAtMs)
      ∧ (∀ t, w.row.value.acknowledgedAtMs = some t → ∀ later w', w.run fits later = some w' →
        w'.row.value.acknowledgedAtMs = some t ∧ w'.claims = w.claims)
      ∧ (w.row.value.acknowledgedAtMs = none →
        w.row.status = "pending" ∧ ∃ due, w.row.dueAtMs = some due
          ∧ ∀ token leaseMs now granted, Outbox.durationRange leaseMs → due ≤ now →
            granted + leaseMs ≤ i64Max → w.row.value.deliveries < maxDeliveries →
            fits (Outbox.claimed w.row token (granted + leaseMs) granted).value = true →
            ∃ row, Outbox.claim fits w.row token leaseMs true now granted
              = .ok (some { event, token }, row))
      ∧ w.row.value.event = event
      ∧ w.row.value.deliveries = w.claims.length := by
  have h := (Delivered.published event start).run hrun
  refine ⟨fun c hc now row hack hne => ?_, fun c hc delayMs now row hretry => ?_,
    fun t hack later w' hlater => OutboxWorld.run_settled hlater hack, fun hopen => ?_,
    h.event_eq, h.counted⟩
  · obtain ⟨lease, hlease, htoken, ⟨-, hsame⟩ | ⟨-, hlive, -⟩⟩ := Outbox.acknowledge_eq_ok hack
    · exact absurd hsame hne
    · exact ⟨h.eq_latest hlease hc htoken, lease, hlease, htoken, hlive⟩
  · obtain ⟨lease, hlease, htoken, hlive, -⟩ := Outbox.retry_eq_ok hretry
    exact ⟨h.eq_latest hlease hc htoken, lease, hlease, htoken, hlive⟩
  · obtain ⟨hstatus, due, hdue, -⟩ := h.pending hopen
    refine ⟨hstatus, due, hdue, fun token leaseMs now granted hrange hnow hclock hroom hfits => ?_⟩
    have hfree : ¬ Outbox.held w.row now := by
      refine h.free hopen (fun due' hdue' => ?_)
      rw [← Option.some.inj (hdue.symm.trans hdue')]
      exact hnow
    refine ⟨Outbox.claimed w.row token (granted + leaseMs) granted, ?_⟩
    rw [Outbox.claim_eq_ok hfree, h.event_eq]
    exact ⟨hrange, rfl, hclock, hroom, h.revision_lt, hfits, rfl⟩

namespace Sample

/-- Claim, let the lease lapse, claim again, and acknowledge. -/
def redelivered : List (OutboxStep String) :=
  [.claim "first" 100 true 0 1, .claim "second" 100 true 101 102,
    .acknowledge ⟨"event", "first"⟩ 103, .acknowledge ⟨"event", "second"⟩ 104]

/-- Any record of a small event is within the limit. -/
def unbounded (_ : Outbox String) : Bool := true

def delivered : OutboxWorld String :=
  ((OutboxWorld.published "event" 0).run unbounded redelivered).getD (.published "event" 0)

end Sample

theorem delivery_redelivered :
    Sample.delivered.row.value.acknowledgedAtMs = some 104
      ∧ ∀ later w', Sample.delivered.run Sample.unbounded later = some w' →
        w'.row.value.acknowledgedAtMs = some 104 ∧ w'.claims = Sample.delivered.claims := by
  have hrun : (OutboxWorld.published "event" 0).run Sample.unbounded Sample.redelivered
      = some Sample.delivered := by rfl
  have hack : Sample.delivered.row.value.acknowledgedAtMs = some 104 := by decide +kernel
  exact ⟨hack, (delivery Sample.unbounded "event" 0 Sample.redelivered hrun).2.2.1 104 hack⟩

/-- A record can be claimed and left to lapse any number of times up to the
limit of the counter. -/
theorem exists_lapsed (n : ℕ) (hn : n ≤ maxDeliveries) :
    ∃ steps w, (OutboxWorld.published "event" 0).run Sample.unbounded steps = some w
      ∧ w.row.value.acknowledgedAtMs = none ∧ w.row.value.deliveries = n
      ∧ w.row.dueAtMs = some (100 * n : ℤ) ∧ w.clock ≤ 100 * n
      ∧ ∀ c ∈ w.claims, c.token.length < n := by
  induction n with
  | zero =>
    exact ⟨[], OutboxWorld.published "event" 0, rfl, rfl, rfl, rfl, le_refl _,
      fun c hc => absurd hc List.not_mem_nil⟩
  | succ n ih =>
    obtain ⟨steps, w, hrun, hopen, hcount, hdue, hclock, htokens⟩ := ih (by omega)
    have hinv := (Delivered.published "event" 0).run hrun
    set token := String.ofList (List.replicate n 'a')
    have hlength : token.length = n := by simp [token]
    have hfresh : token ∉ w.claims.map DeliveryClaim.token := by
      intro hmem
      obtain ⟨c, hc, heq⟩ := List.mem_map.mp hmem
      have hlt := htokens c hc
      rw [heq, hlength] at hlt
      exact lt_irrefl n hlt
    have hfree : ¬ Outbox.held w.row (100 * n) := by
      refine hinv.free hopen (fun due hat => ?_)
      rw [← Option.some.inj (hdue.symm.trans hat)]
    have hroom : 100 * (n : ℤ) + 100 ≤ i64Max := by
      unfold maxDeliveries at hn
      unfold i64Max
      omega
    have hclaim : Outbox.claim Sample.unbounded w.row token 100 true (100 * n) (100 * n)
        = .ok (some ⟨w.row.value.event, token⟩,
            Outbox.claimed w.row token (100 * n + 100) (100 * n)) :=
      (Outbox.claim_eq_ok hfree).mpr
        ⟨by decide, rfl, hroom, by omega, hinv.revision_lt, rfl, rfl⟩
    have hstep := OutboxWorld.step_claim hfresh (not_lt.mpr hclock) (lt_irrefl _) hclaim
    refine ⟨steps ++ [.claim token 100 true (100 * n) (100 * n)], _,
      foldlM_concat hrun hstep, ?_, ?_, ?_, ?_, ?_⟩
    · exact hopen
    · exact congrArg (· + 1) hcount
    · show some (100 * (n : ℤ) + 100) = some (100 * ((n + 1 : ℕ) : ℤ))
      push_cast
      rw [mul_add, mul_one]
    · show (100 * (n : ℤ)) ≤ 100 * ((n + 1 : ℕ) : ℤ)
      omega
    · intro c hc
      rcases List.mem_append.mp hc with hc | hc
      · exact Nat.lt_succ_of_lt (htokens c hc)
      · rw [List.mem_singleton.mp hc]
        exact Nat.lt_succ_of_le (le_of_eq hlength)

/-- **Delivery may end unacknowledged.** A record that was claimed as often
as the counter can tell stays pending past its due time, and no claim of it
succeeds. -/
theorem exhausted_unclaimable :
    ∃ steps w due, (OutboxWorld.published "event" 0).run Sample.unbounded steps = some w
      ∧ w.row.value.acknowledgedAtMs = none ∧ w.row.dueAtMs = some due
      ∧ ∀ token leaseMs owner now granted c row, due ≤ now →
        Outbox.claim Sample.unbounded w.row token leaseMs owner now granted
          ≠ .ok (some c, row) := by
  obtain ⟨steps, w, hrun, hopen, hcount, hdue, -, -⟩ := exists_lapsed maxDeliveries (le_refl _)
  refine ⟨steps, w, _, hrun, hopen, hdue,
    fun token leaseMs owner now granted c row hnow hclaim => ?_⟩
  have hfree : ¬ Outbox.held w.row now := by
    refine ((Delivered.published "event" 0).run hrun).free hopen (fun due hat => ?_)
    rw [← Option.some.inj (hdue.symm.trans hat)]
    exact hnow
  obtain ⟨-, -, -, hroom, -⟩ := (Outbox.claim_eq_ok hfree).mp hclaim
  rw [hcount] at hroom
  exact absurd hroom (by simp)

end BitRouter.Shared
