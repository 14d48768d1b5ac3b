import BitRouter.Metering.Reconciliation
import Mathlib.Algebra.Order.BigOperators.Group.List
import Mathlib.Data.List.Perm.Subperm

/-!
# Operations and steps of a reconciliation

An operation of the loop touches one row, and only one that is pending or unknown
(`LoopStep`). The ordinary settlement touches the charge of a row and never its
status or its attempts. So the loop always knows the status of the rows it works
on (`Sound`), whatever is written beside it.
-/

namespace BitRouter.Metering

variable {B : Billing} {M : ℕ} {rows rows' : Rows} {id : String}

/-! ## Status and attempts -/

def statusAt (rows : Rows) (requestId : String) : Option (ReconciliationStatus × ℕ) :=
  rows[requestId]?.map fun row => (row.reconciliationStatus, row.reconciliationAttempts)

variable {row : RequestRow}

theorem statusAt_of_row (h : rows[id]? = some row) :
    statusAt rows id = some (row.reconciliationStatus, row.reconciliationAttempts) := by
  rw [statusAt, h]
  rfl

theorem statusAt_insert (j : String) :
    statusAt (rows.insert id row) j =
      if id = j then some (row.reconciliationStatus, row.reconciliationAttempts)
      else statusAt rows j := by
  rw [statusAt, StrMap.getElem?_insert]
  split
  · rfl
  · rw [statusAt]

variable {a : ℕ}

theorem row_of_statusAt {s : ReconciliationStatus} (h : statusAt rows id = some (s, a)) :
    ∃ row, rows[id]? = some row ∧ row.reconciliationStatus = s
        ∧ row.reconciliationAttempts = a := by
  obtain ⟨row, hrow, hpair⟩ := Option.map_eq_some_iff.mp h
  exact ⟨row, hrow, (Prod.mk.inj hpair).1, (Prod.mk.inj hpair).2⟩

/-- **One row moves**, from a status that is not settled. -/
structure RowMoves (rows rows' : Rows) (id : String) (s s' : ReconciliationStatus) (a a' : ℕ) :
    Prop where
  before : statusAt rows id = some (s, a)
  unsettled : ¬ s.Settled
  after : statusAt rows' id = some (s', a')
  others : ∀ j, j ≠ id → rows'[j]? = rows[j]?

theorem rowMoves_insert (row' : RequestRow) (hrow : rows[id]? = some row)
    (hunsettled : ¬ row.reconciliationStatus.Settled) :
    RowMoves rows (rows.insert id row') id row.reconciliationStatus row'.reconciliationStatus
      row.reconciliationAttempts row'.reconciliationAttempts where
  before := statusAt_of_row hrow
  unsettled := hunsettled
  after := by rw [statusAt_insert, if_pos rfl]
  others j hj := by rw [StrMap.getElem?_insert, if_neg hj.symm]

theorem RowMoves.statusAt_other {s s' : ReconciliationStatus} {a' : ℕ}
    (h : RowMoves rows rows' id s s' a a') {j : String} (hj : j ≠ id) :
    statusAt rows' j = statusAt rows j := by
  rw [statusAt, statusAt, h.others j hj]

theorem pending_unsettled : ¬ ReconciliationStatus.pending.Settled := by decide

theorem unknown_unsettled : ¬ ReconciliationStatus.unknown.Settled := by decide

/-! ## Operations -/

theorem start_of_pending (h : statusAt rows id = some (.pending, a)) :
    ∃ rows', startReconciliationAttempt rows id = .ok (rows', min (a + 1) 2147483647) ∧
      RowMoves rows rows' id .pending .pending a (min (a + 1) 2147483647) := by
  obtain ⟨row, hrow, hstatus, rfl⟩ := row_of_statusAt h
  have hmoves := rowMoves_insert { row with
    reconciliationAttempts := min (row.reconciliationAttempts + 1) 2147483647
    reconciliationLastError := none } hrow (hstatus ▸ pending_unsettled)
  refine ⟨_, ?_, by rwa [hstatus] at hmoves⟩
  rw [startReconciliationAttempt, loadRow, hrow]
  show (ensure (row.reconciliationStatus = .pending) _ >>= _) = _
  rw [hstatus]
  rfl

theorem exhaust_of_pending (h : statusAt rows id = some (.pending, a)) (reason : String) :
    ∃ rows', exhaustReconciliation rows id reason = .ok rows' ∧
      RowMoves rows rows' id .pending .unknown a a := by
  obtain ⟨row, hrow, hstatus, rfl⟩ := row_of_statusAt h
  have hmoves := rowMoves_insert { row with
    reconciliationStatus := .unknown
    charge := { row.charge with chargeStatus := .unknown, estimatedChargeMicroUsd := 0 }
    reconciliationLastError := some (truncateError reason) } hrow (hstatus ▸ pending_unsettled)
  refine ⟨_, ?_, by rwa [hstatus] at hmoves⟩
  rw [exhaustReconciliation, loadRow, hrow]
  show (if row.reconciliationStatus ≠ .pending then _ else _) = _
  rw [if_neg (not_not.mpr hstatus)]
  rfl

theorem reopen_of_unknown (h : statusAt rows id = some (.unknown, a)) (ha : a < M) :
    ∃ rows', reopenUnknownReconciliation rows id M = .ok (rows', true) ∧
      RowMoves rows rows' id .unknown .pending a a := by
  obtain ⟨row, hrow, hstatus, rfl⟩ := row_of_statusAt h
  have hmoves := rowMoves_insert { row with reconciliationStatus := .pending } hrow
    (hstatus ▸ unknown_unsettled)
  refine ⟨_, ?_, by rwa [hstatus] at hmoves⟩
  rw [reopenUnknownReconciliation, loadRow, hrow]
  show (if row.reconciliationStatus ≠ .unknown ∨ M ≤ row.reconciliationAttempts then _ else _) = _
  rw [if_neg (not_or.mpr ⟨not_not.mpr hstatus, Nat.not_le.mpr ha⟩)]
  rfl

theorem reopen_of_spent (h : statusAt rows id = some (.unknown, a)) (ha : M ≤ a) :
    reopenUnknownReconciliation rows id M = .ok (rows, false) := by
  obtain ⟨row, hrow, -, rfl⟩ := row_of_statusAt h
  rw [reopenUnknownReconciliation, loadRow, hrow]
  show (if row.reconciliationStatus ≠ .unknown ∨ M ≤ row.reconciliationAttempts then _ else _) = _
  rw [if_pos (.inr ha)]
  rfl

theorem recordError_of_pending (h : statusAt rows id = some (.pending, a)) (error : String) :
    ∃ rows', recordReconciliationError rows id error = .ok rows' ∧
      RowMoves rows rows' id .pending .pending a a := by
  obtain ⟨row, hrow, hstatus, rfl⟩ := row_of_statusAt h
  have hmoves := rowMoves_insert { row with reconciliationLastError := some (truncateError error) }
    hrow (hstatus ▸ pending_unsettled)
  refine ⟨_, ?_, by rwa [hstatus] at hmoves⟩
  rw [recordReconciliationError, loadRow, hrow]
  show Except.ok (rows.insert id { row with reconciliationLastError := _ }) = _
  rw [hstatus]

variable {prices : List UsagePriceOverride} {receipt : SettlementReceipt} {usage : Ai.Usage}

theorem attempts_of_reconciledRow {row' : RequestRow} {accept : Bool}
    (h : reconciledRow B row usage receipt prices accept = .ok row') :
    row'.reconciliationAttempts = row.reconciliationAttempts := by
  unfold reconciledRow at h
  split at h
  · obtain rfl := Except.ok.inj h
    rfl
  · split at h
    all_goals
      obtain rfl := Except.ok.inj h
      rfl
  · obtain rfl := Except.ok.inj h
    rfl
  · split at h
    · obtain rfl := Except.ok.inj h
      rfl
    · obtain rfl := Except.ok.inj h
      rfl
    · split at h
      · obtain ⟨evidence, -, rfl⟩ := map_eq_ok.mp h
        rfl
      · obtain rfl := Except.ok.inj h
        unfold reconstructedRow
        dsimp only
        split
        · rfl
        · split
          · rfl
          · split <;> rfl

theorem apply_of_pending {accept : Bool} {status : ReconciliationStatus}
    (h : statusAt rows receipt.requestId = some (.pending, a))
    (hok : applyAuthoritativeReceipt B rows receipt prices accept = .ok (rows', status)) :
    RowMoves rows rows' receipt.requestId .pending status a a := by
  obtain ⟨row, hrow, hstatus, rfl⟩ := row_of_statusAt h
  simp only [applyAuthoritativeReceipt, loadRow, hrow, bind_eq_ok, pure_eq_ok, Prod.mk.injEq] at hok
  obtain ⟨row₁, hrow₁, _, -, usage, -, row', hrow', rfl, rfl⟩ := hok
  obtain rfl := Option.some.inj (orFail_eq_ok.mp hrow₁)
  have hmoves := rowMoves_insert row' hrow (hstatus ▸ pending_unsettled)
  rwa [hstatus, attempts_of_reconciledRow hrow'] at hmoves

/-- **The ordinary settlement leaves the status and the attempts** of every row. -/
theorem statusAt_recordRequest (rows : Rows) (record : RequestMetric) (j : String) :
    statusAt (recordRequest rows record) j = statusAt rows j ∨
      statusAt rows j = none ∧
        statusAt (recordRequest rows record) j = some (record.reconciliationStatus, 0) := by
  unfold recordRequest
  cases hrow : rows[record.requestId]? with
  | none =>
    rw [statusAt_insert]
    split
    · next hj =>
      rw [← hj, statusAt, hrow]
      exact .inr ⟨rfl, rfl⟩
    · exact .inl rfl
  | some row =>
    rw [statusAt_insert]
    split
    · next hj => rw [← hj, statusAt_of_row hrow]; exact .inl rfl
    · exact .inl rfl

theorem statusAt_recordRequest_some (record : RequestMetric) {j : String}
    {p : ReconciliationStatus × ℕ} (h : statusAt rows j = some p) :
    statusAt (recordRequest rows record) j = some p := by
  rcases statusAt_recordRequest rows record j with hsame | ⟨hnone, -⟩
  · rw [hsame, h]
  · rw [h] at hnone
    cases hnone

/-! ## Records of a pass -/

variable {ids : List String}

theorem mem_reconciliationRecords {record : ReconciliationRecord} :
    record ∈ reconciliationRecords rows ids ↔ record.requestId ∈ ids ∧
      statusAt rows record.requestId = some (record.status, record.attempts) := by
  simp only [reconciliationRecords, List.mem_map, List.mem_filter, decide_eq_true_eq, Prod.exists]
  constructor
  · rintro ⟨j, row, ⟨hmem, hj⟩, rfl⟩
    exact ⟨hj, statusAt_of_row (StrMap.mem_toList.mp hmem)⟩
  · rintro ⟨hj, hstatus⟩
    obtain ⟨row, hrow, hs, ha⟩ := row_of_statusAt hstatus
    exact ⟨record.requestId, row, ⟨StrMap.mem_toList.mpr hrow, hj⟩, by rw [hs, ha]⟩

theorem nodup_reconciliationRecords :
    ((reconciliationRecords rows ids).map (·.requestId)).Nodup := by
  have hkeys : ((reconciliationRecords rows ids).map (·.requestId)) =
      (rows.toList.filter fun entry => entry.1 ∈ ids).map Prod.fst := by
    rw [reconciliationRecords, List.map_map]
    rfl
  rw [hkeys]
  refine (List.filter_sublist.map Prod.fst).nodup ?_
  rw [Std.ExtTreeMap.map_fst_toList_eq_keys]
  exact Std.ExtTreeMap.nodup_keys

theorem statusAt_of_length (hlength : (reconciliationRecords rows ids).length = ids.length) :
    ∀ id ∈ ids, statusAt rows id ≠ none := by
  intro id hid
  have hsubset : (reconciliationRecords rows ids).map (·.requestId) ⊆ ids := by
    intro j hj
    obtain ⟨record, hrecord, rfl⟩ := List.mem_map.mp hj
    exact (mem_reconciliationRecords.mp hrecord).1
  have hperm := (List.subperm_of_subset nodup_reconciliationRecords hsubset).perm_of_length_le
    (by rw [List.length_map, hlength])
  obtain ⟨record, hrecord, rfl⟩ := List.mem_map.mp (hperm.symm.subset hid)
  rw [(mem_reconciliationRecords.mp hrecord).2]
  exact Option.some_ne_none _

/-! ## Receipts against prices -/

theorem charge_of_computed {pricing : ModelPricing} {source : PricingSource} {version : String}
    {evidence : ChargeEvidence FrozenTariff}
    (hevidence : calculateChargeEvidence usage pricing source version = evidence)
    (h : evidence.status = .computed) : evidence.chargeMicroUsd ≠ none := by
  subst hevidence
  unfold calculateChargeEvidence at h ⊢
  dsimp only at h ⊢
  split at h
  · cases h
  · cases h
  · split at h
    · cases h
    · exact Option.some_ne_none _

theorem charge_of_override_computed {pricing : ModelPricing} {admitted : Option FrozenTariff}
    (h : (overrideChargeEvidence B usage pricing admitted).status = .computed) :
    (overrideChargeEvidence B usage pricing admitted).chargeMicroUsd ≠ none := by
  unfold overrideChargeEvidence at h ⊢
  cases admitted with
  | none =>
    split at h
    · cases h
    · next hcache =>
      exact charge_of_computed rfl h
  | some tariff =>
    dsimp only at h ⊢
    split at h
    · cases h
    · next hcache =>
      rw [if_neg hcache]
      exact charge_of_computed rfl h

/-- **A charge reconstructed by one price**: what the row carries is the final
charge of the receipt, and the matching prices have one version among them. -/
def Reconstructed (B : Billing) (prices : List UsagePriceOverride) (receipt : SettlementReceipt)
    (row row' : RequestRow) : Prop :=
  ∃ usage providerId modelId charge evidence,
    authoritativeUsage receipt = .ok usage ∧ receipt.providerId = some providerId
      ∧ receipt.modelId = some modelId ∧ receipt.finalChargeMicroUsd = some charge
      ∧ row'.charge.estimatedChargeMicroUsd = charge
      ∧ row'.charge.chargeEvidence = some evidence ∧ evidence.chargeMicroUsd = some charge
      ∧ ∀ version, version ∈ ((matchingEvidence B receipt usage (storedTariff row)
          (candidatePrices prices providerId modelId)).map (·.pricingVersion))
        ↔ version = evidence.pricingVersion

theorem reconstructed_of_row {providerId modelId : String}
    (husage : authoritativeUsage receipt = .ok usage)
    (hprovider : receipt.providerId = some providerId) (hmodel : receipt.modelId = some modelId)
    (hcomputed : (reconstructedRow B row usage receipt prices providerId
      modelId).reconciliationStatus = .computed) :
    Reconstructed B prices receipt row
      (reconstructedRow B row usage receipt prices providerId modelId) := by
  unfold reconstructedRow at hcomputed ⊢
  dsimp only at hcomputed ⊢
  split at hcomputed
  · cases hcomputed
  next hcandidates =>
  rw [if_neg hcandidates]
  split at hcomputed
  · cases hcomputed
  next evidence others hmatching =>
  split at hcomputed
  · cases hcomputed
  next hsame =>
  rw [if_neg hsame]
  -- an evidence that matches was computed, and so has a charge: that of the receipt
  have hmem : evidence ∈ matchingEvidence B receipt usage (storedTariff row)
      (candidatePrices prices providerId modelId) := hmatching ▸ List.mem_cons_self
  obtain ⟨hprice, hmatches⟩ := List.mem_filter.mp hmem
  obtain ⟨price, -, rfl⟩ := List.mem_map.mp hprice
  rw [Bool.and_eq_true, decide_eq_true_eq, decide_eq_true_eq] at hmatches
  obtain ⟨charge, hcharge⟩ :=
    Option.ne_none_iff_exists'.mp (charge_of_override_computed hmatches.1)
  refine ⟨usage, providerId, modelId, charge, _, husage, hprovider, hmodel,
    hmatches.2 ▸ hcharge, ?_, rfl, hcharge, fun version => ?_⟩
  · show (overrideChargeEvidence B usage price.pricing (storedTariff row)).chargeMicroUsd.getD 0 = _
    rw [hcharge]
    rfl
  · rw [hmatching, List.map_cons, List.mem_cons, List.mem_map]
    constructor
    · rintro (rfl | ⟨other, hother, rfl⟩)
      · rfl
      · by_contra hne
        exact hsame (List.any_eq_true.mpr ⟨other, hother, decide_eq_true hne⟩)
    · exact .inl

/-- **A row that a receipt computed against prices** carries the charge of the
receipt. -/
theorem reconstructed_of_apply (hrow : rows[receipt.requestId]? = some row)
    (hok : applyAuthoritativeReceipt B rows receipt prices false = .ok (rows', .computed)) :
    ∃ row', rows'[receipt.requestId]? = some row' ∧ Reconstructed B prices receipt row row' := by
  simp only [applyAuthoritativeReceipt, loadRow, hrow, bind_eq_ok, pure_eq_ok, Prod.mk.injEq] at hok
  obtain ⟨row₁, hrow₁, _, hpending, usage, husage, row', hrow', rfl, hcomputed⟩ := hok
  obtain rfl := Option.some.inj (orFail_eq_ok.mp hrow₁)
  have hunsettled : row.reconciliationStatus = .pending := ensure_eq_ok.mp hpending
  refine ⟨row', by rw [StrMap.getElem?_insert, if_pos rfl], ?_⟩
  unfold reconciledRow at hrow'
  split at hrow'
  · obtain rfl := Except.ok.inj hrow'
    rw [hunsettled] at hcomputed
    cases hcomputed
  · split at hrow' <;> obtain rfl := Except.ok.inj hrow' <;> cases hcomputed
  · obtain rfl := Except.ok.inj hrow'
    cases hcomputed
  · split at hrow'
    · obtain rfl := Except.ok.inj hrow'
      cases hcomputed
    · obtain rfl := Except.ok.inj hrow'
      cases hcomputed
    · next hprovider hmodel =>
      obtain rfl := Except.ok.inj hrow'
      exact reconstructed_of_row husage hprovider hmodel hcomputed

end BitRouter.Metering
