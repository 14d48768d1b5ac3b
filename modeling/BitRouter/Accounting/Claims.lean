import BitRouter.Data.StrMap

/-!
# Bills of a run's requests

`claims.rs`: the settlement store is read for the requests of a run, and what it
answers is kept in the run's ledger, one claim for each source, bill and basis. A
bill is owned by one request of one run. Ownership is checked over all ledgers by
bill, while a ledger stores claims under a digest of bill and basis: nothing here
asks the digest to be injective, since a claim that meets another one under its
key is refused.

The two views agree in every state a run of transitions reaches (`Owned`).
-/

namespace BitRouter.Accounting

/-- How good a claim is. -/
inductive NativeCostBasis
  | estimated
  | reported
  | reconciled
  deriving DecidableEq, Repr

/-- What a claim is about. -/
inductive NativeCostScope
  | modelTokens
  | requestBill
  deriving DecidableEq, Repr

/-- A cost that a source claims. -/
structure NativeCostClaim where
  requestId : String
  source : String
  billId : String
  basis : NativeCostBasis
  scope : NativeCostScope
  microUsd : UInt64
  evidenceSha256 : String
  provider : String
  model : String
  deriving DecidableEq, Repr

/-- The claims on one request. -/
structure NativeCostObservation where
  requestId : String
  claims : List NativeCostClaim
  unknownReason : Option String

/-- What a run does. -/
inductive CostWorkKind
  | preparation
  | preparationCallback
  | decisionModel
  | providerAttempt
  | inputCount
  | contextValidation
  | contextRebuild
  | workspaceTool
  | materialFetch
  | authenticationPreparation
  | authentication
  | authenticationRefresh
  | httpDispatch
  deriving DecidableEq, Repr

/-- The work a request is billed for. -/
structure CostWork where
  requestId : Option String
  kind : CostWorkKind

/-- The ledger of a run. -/
structure RunCostWork where
  work : StrMap CostWork := ∅
  charges : StrMap NativeCostClaim := ∅
  chargeUnknown : StrMap String := ∅

/-- The ledgers of all runs, retired ones included. -/
abbrev Ledgers := StrMap RunCostWork

inductive ErrorCode
  | operationConflict
  | unauthorizedScope
  deriving DecidableEq, Repr

structure CoreError where
  code : ErrorCode
  message : String
  deriving DecidableEq, Repr

def isIdByte (b : UInt8) : Bool :=
  (48 ≤ b && b ≤ 57) || (65 ≤ b && b ≤ 90) || (97 ≤ b && b ≤ 122)
    || b = 95 || b = 45 || b = 46 || b = 58

/-- A name of at most 128 bytes. -/
def validateId (value : String) : Except CoreError Unit :=
  if value.isEmpty || 128 < value.utf8ByteSize || !value.toByteArray.data.toList.all isIdByte then
    .error ⟨.unauthorizedScope, "invalid or oversized identity"⟩
  else .ok ()

/-! ## Who owns a bill -/

def NativeCostClaim.bill (c : NativeCostClaim) : String × String := (c.source, c.billId)

/-- The owners of bills, as a run and a request: the newest entry of a bill counts. -/
abbrev Owners := List ((String × String) × (String × String))

/-- Who owns each stored bill. -/
def ledgerOwners (ledgers : Ledgers) : Owners :=
  (ledgers.toList.flatMap fun entry => entry.2.charges.toList.map fun charge =>
    (charge.2.bill, (entry.1, charge.2.requestId))).reverse

def ownedElsewhere : CoreError :=
  ⟨.operationConflict, "monetary bill belongs to another request or run"⟩

/-- A bill has one owner. -/
def enterOwners (runId : String) : Owners → List NativeCostClaim → Except CoreError Unit
  | _, [] => .ok ()
  | owners, c :: claims =>
    if (owners.lookup c.bill).any (· ≠ (runId, c.requestId)) then .error ownedElsewhere
    else enterOwners runId ((c.bill, (runId, c.requestId)) :: owners) claims

/-- No bill belongs to two requests. -/
def validateBillOwnership (ledgers : Ledgers) (runId : String)
    (observations : List NativeCostObservation) : Except CoreError Unit :=
  enterOwners runId (ledgerOwners ledgers) (observations.flatMap (·.claims))

/-! ## What a ledger takes up -/

/-- The requests of a ledger. -/
def requestIds (ledger : RunCostWork) : List String :=
  ledger.work.toList.filterMap fun entry =>
    if entry.2.kind = .providerAttempt || entry.2.kind = .preparationCallback then
      entry.2.requestId
    else none

def conflict : CoreError :=
  ⟨.operationConflict,
    "monetary evidence conflicts with request ownership or prior evidence"⟩

def isHexByte (b : UInt8) : Bool :=
  (48 ≤ b && b ≤ 57) || (65 ≤ b && b ≤ 70) || (97 ≤ b && b ≤ 102)

/-- Whether a text is a SHA-256 commitment. -/
def isCommitment (value : String) : Bool :=
  let bytes := value.toByteArray.data.toList
  let tag := "sha256:".toByteArray.data.toList
  bytes.take 7 = tag && (bytes.drop 7).length = 64 && (bytes.drop 7).all isHexByte

/-- Check one claim of the observation of a request. -/
def checkClaim (requestId : String) (c : NativeCostClaim) : Except CoreError Unit := do
  validateId c.source
  validateId c.billId
  if c.requestId ≠ requestId || !isCommitment c.evidenceSha256
      || 256 < c.provider.utf8ByteSize || 256 < c.model.utf8ByteSize
      || ((c.basis = .reported || c.basis = .reconciled) && c.scope ≠ .requestBill) then
    .error conflict
  else .ok ()

section Ledger

-- The digest of a source, a bill and a basis.
variable (digest : String → String → NativeCostBasis → String)

/-- The key a claim is stored under. -/
def NativeCostClaim.key (c : NativeCostClaim) : String := digest c.source c.billId c.basis

/-- Take up the claims of one request. -/
def takeClaims (requestId : String) :
    StrMap NativeCostClaim → List NativeCostClaim → Except CoreError (StrMap NativeCostClaim)
  | charges, [] => .ok charges
  | charges, c :: claims => do
    checkClaim requestId c
    if charges[c.key digest]?.any (· ≠ c) then .error conflict
    else takeClaims requestId (charges.insert (c.key digest) c) claims

/-- Keeps why a charge is unknown. -/
def noteUnknown (o : NativeCostObservation) (unknown : StrMap String) :
    Except CoreError (StrMap String) :=
  match o.unknownReason with
  | some reason => do
    validateId reason
    .ok (unknown.insert o.requestId reason)
  | none => .ok (unknown.erase o.requestId)

/-- Take up the observations of requests that were asked for, each at most once. -/
def takeObservations (requested : List String) :
    List String → RunCostWork → List NativeCostObservation → Except CoreError RunCostWork
  | _, ledger, [] => .ok ledger
  | seen, ledger, o :: observations => do
    if !requested.contains o.requestId || seen.contains o.requestId || 8 < o.claims.length then
      .error conflict
    else
      let unknown ← noteUnknown o ledger.chargeUnknown
      if o.claims.isEmpty && o.unknownReason.isNone then .error conflict
      else
        let charges ← takeClaims digest o.requestId ledger.charges o.claims
        takeObservations requested (o.requestId :: seen)
          { ledger with charges := charges, chargeUnknown := unknown } observations

/-- What observations do to a ledger. -/
def apply (ledger : RunCostWork) (requested : List String)
    (observations : List NativeCostObservation) : Except CoreError RunCostWork :=
  if observations.length ≠ requested.length then .error conflict
  else takeObservations digest requested [] ledger observations

/-- The transition that commits what was observed of the requests of a run, which an
earlier snapshot named. -/
def refreshCosts (ledgers : Ledgers) (runId : String) (requested : List String)
    (observations : List NativeCostObservation) : Except CoreError Ledgers := do
  validateBillOwnership ledgers runId observations
  match ledgers[runId]? with
  | none => .error ⟨.unauthorizedScope, "cost run disappeared"⟩
  | some ledger =>
    if !requested.all (requestIds ledger).contains then
      .error ⟨.operationConflict, "cost request ownership changed"⟩
    else
      let ledger ← apply digest ledger requested observations
      .ok (ledgers.insert runId ledger)

/-! ## What one transition does -/

variable {digest}

/-- What apply does, as a relation. -/
structure Takes (digest : String → String → NativeCostBasis → String)
    (observations : List NativeCostObservation) (ledger ledger' : RunCostWork) : Prop where
  work : ledger'.work = ledger.work
  kept : ∀ (k : String) c, ledger.charges[k]? = some c → ledger'.charges[k]? = some c
  only : ∀ (k : String) c, ledger'.charges[k]? = some c → ledger.charges[k]? = some c
    ∨ (k = c.key digest ∧ ∃ o ∈ observations, c ∈ o.claims)
  taken : ∀ o ∈ observations, ∀ c ∈ o.claims, ledger'.charges[c.key digest]? = some c
  unknown : ∀ r : String, ledger'.chargeUnknown[r]?
    = (observations.filter (·.requestId = r)).getLast?.elim ledger.chargeUnknown[r]?
        (·.unknownReason)
  noted : ∀ o ∈ observations, ledger'.chargeUnknown[o.requestId]? = o.unknownReason

theorem takeClaims_cons {r : String} {charges charges' : StrMap NativeCostClaim}
    {c : NativeCostClaim} {cs : List NativeCostClaim}
    (h : takeClaims digest r charges (c :: cs) = .ok charges') :
    checkClaim r c = .ok () ∧ (∀ d, charges[c.key digest]? = some d → d = c)
      ∧ takeClaims digest r (charges.insert (c.key digest) c) cs = .ok charges' := by
  rw [takeClaims] at h
  cases hc : checkClaim r c with
  | error e => rw [hc] at h; cases h
  | ok _ =>
    rw [hc] at h
    split at h
    · cases h
    · rename_i hany
      exact ⟨rfl, fun d hd => by simpa [hd] using hany, h⟩

/-- **The claims of one request**: none that is stored changes, and no other is added. -/
theorem takeClaims_ok {r : String} {charges charges' : StrMap NativeCostClaim}
    {cs : List NativeCostClaim} (h : takeClaims digest r charges cs = .ok charges') :
    (∀ (k : String) c, charges[k]? = some c → charges'[k]? = some c)
      ∧ (∀ (k : String) c, charges'[k]? = some c → charges[k]? = some c
        ∨ (k = c.key digest ∧ c ∈ cs))
      ∧ ∀ c ∈ cs, charges'[c.key digest]? = some c := by
  induction cs generalizing charges with
  | nil =>
    obtain rfl := Except.ok.inj h
    exact ⟨fun _ _ h => h, fun _ _ h => .inl h, by simp⟩
  | cons c cs ih =>
    obtain ⟨-, hprior, hrest⟩ := takeClaims_cons h
    obtain ⟨kept, only, taken⟩ := ih hrest
    have hinsert (k : String) (d : NativeCostClaim) :
        (charges.insert (c.key digest) c)[k]? = some d
          ↔ (c.key digest = k ∧ c = d) ∨ (c.key digest ≠ k ∧ charges[k]? = some d) := by
      rw [StrMap.getElem?_insert]
      split <;> simp_all
    refine ⟨fun k d hd => kept k d ((hinsert k d).mpr ?_), fun k d hd => ?_, fun d hd => ?_⟩
    · by_cases hk : c.key digest = k
      · exact .inl ⟨hk, (hprior d (hk ▸ hd)).symm⟩
      · exact .inr ⟨hk, hd⟩
    · rcases only k d hd with hd | ⟨hk, hd⟩
      · rcases (hinsert k d).mp hd with ⟨rfl, rfl⟩ | ⟨-, hd⟩
        · exact .inr ⟨rfl, List.mem_cons_self⟩
        · exact .inl hd
      · exact .inr ⟨hk, List.mem_cons_of_mem _ hd⟩
    · rcases List.mem_cons.mp hd with rfl | hd
      · exact kept _ _ ((hinsert _ _).mpr (.inl ⟨rfl, rfl⟩))
      · exact taken d hd

/-- Claims that are stored already are taken up without a change. -/
theorem takeClaims_again {r : String} {charges charges' m : StrMap NativeCostClaim}
    {cs : List NativeCostClaim} (h : takeClaims digest r charges cs = .ok charges')
    (hm : ∀ c ∈ cs, m[c.key digest]? = some c) : takeClaims digest r m cs = .ok m := by
  induction cs generalizing charges with
  | nil => rfl
  | cons c cs ih =>
    obtain ⟨hc, -, hrest⟩ := takeClaims_cons h
    have hstored := hm c List.mem_cons_self
    rw [takeClaims, hc]
    show (if m[c.key digest]?.any (· ≠ c) then _ else takeClaims digest r _ cs) = _
    rw [hstored, if_neg (by simp), StrMap.insert_of_getElem? hstored]
    exact ih hrest fun d hd => hm d (List.mem_cons_of_mem _ hd)

theorem noteUnknown_ok {o : NativeCostObservation} {unknown unknown' : StrMap String}
    (h : noteUnknown o unknown = .ok unknown') (r : String) :
    unknown'[r]? = if o.requestId = r then o.unknownReason else unknown[r]? := by
  unfold noteUnknown at h
  cases hr : o.unknownReason with
  | none =>
    rw [hr] at h
    obtain rfl := Except.ok.inj h
    exact StrMap.getElem?_erase _ _ _
  | some reason =>
    rw [hr] at h
    cases hv : validateId reason with
    | error e => simp only [hv] at h; cases h
    | ok _ =>
      simp only [hv] at h
      obtain rfl := Except.ok.inj h
      exact StrMap.getElem?_insert _ _ _ _

theorem noteUnknown_again {o : NativeCostObservation} {unknown unknown' m : StrMap String}
    (h : noteUnknown o unknown = .ok unknown') (hm : m[o.requestId]? = o.unknownReason) :
    noteUnknown o m = .ok m := by
  unfold noteUnknown at h ⊢
  cases hr : o.unknownReason with
  | none =>
    rw [hr] at hm
    exact congrArg Except.ok (StrMap.erase_of_getElem? hm)
  | some reason =>
    rw [hr] at h hm
    cases hv : validateId reason with
    | error e => simp only [hv] at h; cases h
    | ok _ =>
      simp only [hv]
      exact congrArg Except.ok (StrMap.insert_of_getElem? hm)

variable {requested seen : List String} {ledger ledger' : RunCostWork}
  {o : NativeCostObservation} {observations : List NativeCostObservation}

theorem takeObservations_cons
    (h : takeObservations digest requested seen ledger (o :: observations) = .ok ledger') :
    ∃ unknown charges,
      (!requested.contains o.requestId || seen.contains o.requestId || 8 < o.claims.length) = false
      ∧ (o.claims.isEmpty && o.unknownReason.isNone) = false
      ∧ noteUnknown o ledger.chargeUnknown = .ok unknown
      ∧ takeClaims digest o.requestId ledger.charges o.claims = .ok charges
      ∧ takeObservations digest requested (o.requestId :: seen)
          { ledger with charges := charges, chargeUnknown := unknown } observations
        = .ok ledger' := by
  rw [takeObservations] at h
  split at h
  · cases h
  · rename_i hguard
    cases hu : noteUnknown o ledger.chargeUnknown with
    | error e => rw [hu] at h; cases h
    | ok unknown =>
      rw [hu] at h
      split at h
      · cases h
      · rename_i hsome
        cases hc : takeClaims digest o.requestId ledger.charges o.claims with
        | error e => rw [hc] at h; cases h
        | ok charges =>
          rw [hc] at h
          exact ⟨unknown, charges, Bool.eq_false_iff.mpr hguard, Bool.eq_false_iff.mpr hsome,
            rfl, rfl, h⟩

section

variable (h : takeObservations digest requested seen ledger observations = .ok ledger')

include h

/-- No request is observed twice. -/
theorem takeObservations_unseen :
    ∀ o ∈ observations, o.requestId ∉ seen := by
  induction observations generalizing seen ledger with
  | nil => simp
  | cons o observations ih =>
    obtain ⟨unknown, charges, hguard, -, -, -, hrest⟩ := takeObservations_cons h
    intro p hp
    rcases List.mem_cons.mp hp with rfl | hp
    · intro hs
      simp [hs] at hguard
    · exact fun hs => ih hrest p hp (List.mem_cons_of_mem _ hs)

/-- **The observations of a transition.** -/
theorem takeObservations_takes :
    Takes digest observations ledger ledger' := by
  induction observations generalizing seen ledger with
  | nil =>
    obtain rfl := Except.ok.inj h
    exact ⟨rfl, fun _ _ h => h, fun _ _ h => .inl h, by simp, fun _ => rfl, by simp⟩
  | cons o observations ih =>
    obtain ⟨unknown, charges, -, -, hu, hc, hrest⟩ := takeObservations_cons h
    obtain ⟨ckept, conly, ctaken⟩ := takeClaims_ok hc
    have hnote := noteUnknown_ok hu
    have htakes := ih hrest
    refine ⟨htakes.work, fun k c hk => htakes.kept k c (ckept k c hk), fun k c hk => ?_,
      fun p hp c hm => ?_, fun r => ?_, fun p hp => ?_⟩
    · rcases htakes.only k c hk with hk | ⟨hk, p, hp, hc⟩
      · rcases conly k c hk with hk | ⟨hk, hc⟩
        · exact .inl hk
        · exact .inr ⟨hk, o, List.mem_cons_self, hc⟩
      · exact .inr ⟨hk, p, List.mem_cons_of_mem _ hp, hc⟩
    · rcases List.mem_cons.mp hp with rfl | hp
      · exact htakes.kept _ _ (ctaken c hm)
      · exact htakes.taken p hp c hm
    · rw [htakes.unknown r]
      show _ = ((o :: observations).filter _).getLast?.elim _ _
      by_cases hr : o.requestId = r
      · rw [List.filter_cons_of_pos (by simpa using hr)]
        cases hl : (observations.filter (·.requestId = r)).getLast? with
        | none =>
          rw [List.getLast?_eq_none_iff.mp hl]
          simp [hnote, hr]
        | some p => simp [List.getLast?_cons, hl]
      · rw [List.filter_cons_of_neg (by simpa using hr)]
        simp [hnote, hr]
    · rcases List.mem_cons.mp hp with rfl | hp
      · -- no later observation is of the same request
        have hnone : observations.filter (·.requestId = p.requestId) = [] :=
          List.filter_eq_nil_iff.mpr fun q hq => by
            have hne := takeObservations_unseen hrest q hq
            simpa using fun heq : q.requestId = p.requestId => hne (by simp [heq])
        rw [htakes.unknown, hnone]
        simp [hnote]
      · exact htakes.noted p hp

theorem takeObservations_again {m : RunCostWork}
    (hc : ∀ o ∈ observations, ∀ c ∈ o.claims, m.charges[c.key digest]? = some c)
    (hu : ∀ o ∈ observations, m.chargeUnknown[o.requestId]? = o.unknownReason) :
    takeObservations digest requested seen m observations = .ok m := by
  induction observations generalizing seen ledger with
  | nil => rfl
  | cons o observations ih =>
    obtain ⟨unknown, charges, hguard, hsome, hn, ht, hrest⟩ := takeObservations_cons h
    rw [takeObservations, if_neg (by simp only [hguard]; decide),
      noteUnknown_again hn (hu o List.mem_cons_self)]
    show (if o.claims.isEmpty && o.unknownReason.isNone then Except.error conflict
      else takeClaims digest o.requestId m.charges o.claims >>= fun _ => _) = _
    rw [if_neg (by simp only [hsome]; decide), takeClaims_again ht (hc o List.mem_cons_self)]
    exact ih hrest (fun p hp => hc p (List.mem_cons_of_mem _ hp))
      fun p hp => hu p (List.mem_cons_of_mem _ hp)

end

/-! ## Owners -/

/-- A claim is stored in the ledger of a run. -/
def Charged (ledgers : Ledgers) (run key : String) (c : NativeCostClaim) : Prop :=
  ∃ ledger, ledgers[run]? = some ledger ∧ ledger.charges[key]? = some c

theorem mem_ledgerOwners {ledgers : Ledgers} {bill owner : String × String} :
    (bill, owner) ∈ ledgerOwners ledgers
      ↔ ∃ run key c, Charged ledgers run key c ∧ c.bill = bill ∧ owner = (run, c.requestId) := by
  simp only [ledgerOwners, List.mem_reverse, List.mem_flatMap, List.mem_map, Prod.mk.injEq]
  constructor
  · rintro ⟨⟨run, ledger⟩, hl, ⟨key, c⟩, hc, rfl, rfl⟩
    exact ⟨run, key, c, ⟨ledger, StrMap.mem_toList.mp hl, StrMap.mem_toList.mp hc⟩, rfl, rfl⟩
  · rintro ⟨run, key, c, ⟨ledger, hl, hc⟩, rfl, rfl⟩
    exact ⟨(run, ledger), StrMap.mem_toList.mpr hl, (key, c), StrMap.mem_toList.mpr hc, rfl, rfl⟩

/-- **Every bill has one owner, and every claim lies under its own key.** -/
structure Owned (digest : String → String → NativeCostBasis → String) (ledgers : Ledgers) :
    Prop where
  once : ∀ r₁ k₁ c₁ r₂ k₂ c₂, Charged ledgers r₁ k₁ c₁ → Charged ledgers r₂ k₂ c₂ →
    c₁.bill = c₂.bill → r₁ = r₂ ∧ c₁.requestId = c₂.requestId
  keyed : ∀ r k c, Charged ledgers r k c → k = c.key digest

theorem enterOwners_ok_iff {run : String} {owners : Owners} {cs : List NativeCostClaim} :
    enterOwners run owners cs = .ok ()
      ↔ (∀ c ∈ cs, ∀ owner, owners.lookup c.bill = some owner → owner = (run, c.requestId))
        ∧ ∀ c ∈ cs, ∀ d ∈ cs, c.bill = d.bill → c.requestId = d.requestId := by
  induction cs generalizing owners with
  | nil => simp [enterOwners]
  | cons c cs ih =>
    have hlookup (d : NativeCostClaim) :
        List.lookup d.bill ((c.bill, (run, c.requestId)) :: owners)
          = if d.bill = c.bill then some (run, c.requestId) else owners.lookup d.bill := by
      by_cases h : d.bill = c.bill
      · simp [h]
      · rw [List.lookup_cons, if_neg h, beq_eq_false_iff_ne.mpr h]
    rw [enterOwners]
    split
    · rename_i hany
      obtain ⟨owner, ho, hne⟩ := Option.any_eq_true _ _ |>.mp hany
      refine iff_of_false (by simp) fun h => ?_
      simp [h.1 c List.mem_cons_self owner ho] at hne
    · rename_i hany
      have hfree : ∀ owner, owners.lookup c.bill = some owner → owner = (run, c.requestId) :=
        fun owner ho => by simpa [ho] using hany
      rw [ih]
      constructor
      · rintro ⟨hown, hpair⟩
        have hsame (d) (hd : d ∈ cs) (heq : d.bill = c.bill) : c.requestId = d.requestId := by
          have h := hown d hd (run, c.requestId) (by rw [hlookup, if_pos heq])
          exact (Prod.mk.inj h).2
        refine ⟨fun d hd owner ho => ?_, fun d hd e he heq => ?_⟩
        · rcases List.mem_cons.mp hd with rfl | hd
          · exact hfree owner ho
          · by_cases hb : d.bill = c.bill
            · rw [← hsame d hd hb]
              exact hfree owner (hb ▸ ho)
            · exact hown d hd owner (by rw [hlookup, if_neg hb]; exact ho)
        · rcases List.mem_cons.mp hd with rfl | hd' <;> rcases List.mem_cons.mp he with rfl | he'
          · rfl
          · exact hsame e he' heq.symm
          · exact (hsame d hd' heq).symm
          · exact hpair d hd' e he' heq
      · rintro ⟨hown, hpair⟩
        refine ⟨fun d hd owner ho => ?_, fun d hd e he => hpair d (List.mem_cons_of_mem _ hd) e
          (List.mem_cons_of_mem _ he)⟩
        rw [hlookup] at ho
        split at ho
        · rename_i hb
          rw [← Option.some.inj ho,
            hpair d (List.mem_cons_of_mem _ hd) c List.mem_cons_self hb]
        · exact hown d (List.mem_cons_of_mem _ hd) owner ho

theorem lookup_of_mem {owners : Owners} {bill owner : String × String}
    (h : (bill, owner) ∈ owners) : ∃ o, owners.lookup bill = some o := by
  cases hl : owners.lookup bill with
  | some o => exact ⟨o, rfl⟩
  | none =>
    have hne := List.lookup_eq_none_iff.mp hl _ h
    simp at hne

theorem mem_of_lookup {owners : Owners} {bill owner : String × String}
    (h : owners.lookup bill = some owner) : (bill, owner) ∈ owners := by
  obtain ⟨before, after, rfl, -⟩ := List.lookup_eq_some_iff.mp h
  simp

/-- Where every bill has one owner, ownership is checked against every claim stored. -/
theorem validate_iff {ledgers : Ledgers} (hown : Owned digest ledgers) {run : String} :
    validateBillOwnership ledgers run observations = .ok ()
      ↔ (∀ o ∈ observations, ∀ c ∈ o.claims, ∀ r k d, Charged ledgers r k d → d.bill = c.bill →
          r = run ∧ d.requestId = c.requestId)
        ∧ ∀ o ∈ observations, ∀ c ∈ o.claims, ∀ p ∈ observations, ∀ d ∈ p.claims,
          c.bill = d.bill → c.requestId = d.requestId := by
  have hmem {P : NativeCostClaim → Prop} :
      (∀ c ∈ observations.flatMap (·.claims), P c) ↔ ∀ o ∈ observations, ∀ c ∈ o.claims, P c := by
    simp only [List.mem_flatMap]
    exact ⟨fun h o ho c hc => h c ⟨o, ho, hc⟩, fun h c ⟨o, ho, hc⟩ => h o ho c hc⟩
  rw [validateBillOwnership, enterOwners_ok_iff, hmem]
  refine and_congr (forall₄_congr fun o _ c _ => ⟨fun h r k d hd heq => ?_, fun h owner ho => ?_⟩)
    ?_
  · obtain ⟨owner, ho⟩ := lookup_of_mem (mem_ledgerOwners.mpr ⟨r, k, d, hd, heq, rfl⟩)
    obtain ⟨r', k', d', hd', heq', hown'⟩ := mem_ledgerOwners.mp (mem_of_lookup ho)
    have hone := hown.once r k d r' k' d' hd hd' (heq.trans heq'.symm)
    have howner := h owner ho
    rw [hown', Prod.mk.injEq] at howner
    exact ⟨hone.1.trans howner.1, hone.2.trans howner.2⟩
  · obtain ⟨r, k, d, hd, heq, rfl⟩ := mem_ledgerOwners.mp (mem_of_lookup ho)
    exact Prod.ext (h r k d hd heq).1 (h r k d hd heq).2
  · rw [hmem]
    exact forall₄_congr fun o _ c _ => hmem

/-! ## Transitions and runs -/

variable {ledgers ledgers' : Ledgers} {run : String}

/-- **What a transition is made of.** -/
theorem refreshCosts_ok
    (h : refreshCosts digest ledgers run requested observations = .ok ledgers') :
    ∃ ledger ledger', validateBillOwnership ledgers run observations = .ok ()
      ∧ ledgers[run]? = some ledger ∧ (!requested.all (requestIds ledger).contains) = false
      ∧ observations.length = requested.length
      ∧ takeObservations digest requested [] ledger observations = .ok ledger'
      ∧ ledgers' = ledgers.insert run ledger' := by
  unfold refreshCosts at h
  cases hv : validateBillOwnership ledgers run observations with
  | error e => rw [hv] at h; cases h
  | ok _ =>
    rw [hv] at h
    cases hl : ledgers[run]? with
    | none => simp only [hl] at h; cases h
    | some ledger =>
      simp only [hl] at h
      split at h
      · cases h
      · rename_i hsub
        cases ha : apply digest ledger requested observations with
        | error e => rw [ha] at h; cases h
        | ok ledger' =>
          rw [ha] at h
          unfold apply at ha
          split at ha
          · cases ha
          · rename_i hlen
            exact ⟨ledger, ledger', rfl, rfl, Bool.eq_false_iff.mpr hsub, not_not.mp hlen, ha,
              (Except.ok.inj h).symm⟩

theorem charged_insert {ledger : RunCostWork} {r k : String} {c : NativeCostClaim} :
    Charged (ledgers.insert run ledger) r k c
      ↔ (run = r ∧ ledger.charges[k]? = some c) ∨ (run ≠ r ∧ Charged ledgers r k c) := by
  unfold Charged
  rw [StrMap.getElem?_insert]
  by_cases h : run = r <;> simp [h]

/-- A transition keeps every claim and adds none but those it was given. -/
theorem refreshCosts_charged
    (h : refreshCosts digest ledgers run requested observations = .ok ledgers')
    (r k : String) (c : NativeCostClaim) :
    (Charged ledgers r k c → Charged ledgers' r k c)
      ∧ (Charged ledgers' r k c → Charged ledgers r k c
        ∨ (run = r ∧ k = c.key digest ∧ ∃ o ∈ observations, c ∈ o.claims)) := by
  obtain ⟨ledger, ledger', -, hl, -, -, ht, rfl⟩ := refreshCosts_ok h
  have htakes := takeObservations_takes ht
  rw [charged_insert]
  constructor
  · intro hc
    by_cases hr : run = r
    · obtain ⟨l, hl', hk⟩ := hc
      obtain rfl : ledger = l := Option.some.inj (hl.symm.trans (hr ▸ hl'))
      exact .inl ⟨hr, htakes.kept k c hk⟩
    · exact .inr ⟨hr, hc⟩
  · rintro (⟨rfl, hk⟩ | ⟨-, hc⟩)
    · rcases htakes.only k c hk with hk | ⟨hk, ho⟩
      · exact .inl ⟨ledger, hl, hk⟩
      · exact .inr ⟨rfl, hk, ho⟩
    · exact .inl hc

theorem refreshCosts_taken
    (h : refreshCosts digest ledgers run requested observations = .ok ledgers')
    {c : NativeCostClaim} (ho : o ∈ observations) (hc : c ∈ o.claims) :
    Charged ledgers' run (c.key digest) c := by
  obtain ⟨ledger, ledger', -, -, -, -, ht, rfl⟩ := refreshCosts_ok h
  exact charged_insert.mpr (.inl ⟨rfl, (takeObservations_takes ht).taken o ho c hc⟩)

section

variable (hown : Owned digest ledgers)
  (h : refreshCosts digest ledgers run requested observations = .ok ledgers')

include hown h

/-- **Ownership is kept.** -/
theorem Owned.after :
    Owned digest ledgers' := by
  obtain ⟨-, -, hv, -⟩ := refreshCosts_ok h
  obtain ⟨hstored, hpair⟩ := (validate_iff hown).mp hv
  refine ⟨fun r₁ k₁ c₁ r₂ k₂ c₂ h₁ h₂ heq => ?_, fun r k c hc => ?_⟩
  · rcases (refreshCosts_charged h r₁ k₁ c₁).2 h₁ with h₁ | ⟨rfl, -, o₁, ho₁, hc₁⟩ <;>
      rcases (refreshCosts_charged h r₂ k₂ c₂).2 h₂ with h₂ | ⟨rfl, -, o₂, ho₂, hc₂⟩
    · exact hown.once _ _ _ _ _ _ h₁ h₂ heq
    · exact hstored o₂ ho₂ c₂ hc₂ _ _ _ h₁ heq
    · have h := hstored o₁ ho₁ c₁ hc₁ _ _ _ h₂ heq.symm
      exact ⟨h.1.symm, h.2.symm⟩
    · exact ⟨rfl, hpair o₁ ho₁ c₁ hc₁ o₂ ho₂ c₂ hc₂ heq⟩
  · rcases (refreshCosts_charged h r k c).2 hc with hc | ⟨-, hk, -⟩
    · exact hown.keyed r k c hc
    · exact hk

/-- **A transition repeated changes nothing.** -/
theorem Owned.again :
    refreshCosts digest ledgers' run requested observations = .ok ledgers' := by
  have hown' := hown.after h
  obtain ⟨ledger, ledger', hv, hl, hsub, hlen, ht, rfl⟩ := refreshCosts_ok h
  have htakes := takeObservations_takes ht
  have hv' : validateBillOwnership (ledgers.insert run ledger') run observations = .ok () := by
    refine (validate_iff hown').mpr ⟨fun o ho c hc r k d hd heq => ?_,
      ((validate_iff hown).mp hv).2⟩
    exact hown'.once _ _ _ _ _ _ hd (refreshCosts_taken h ho hc) heq
  have hl' : (ledgers.insert run ledger')[run]? = some ledger' := by
    rw [StrMap.getElem?_insert, if_pos rfl]
  have hids : requestIds ledger' = requestIds ledger := by
    unfold requestIds
    rw [htakes.work]
  have ha : apply digest ledger' requested observations = .ok ledger' := by
    rw [apply, if_neg (not_not.mpr hlen)]
    exact takeObservations_again ht htakes.taken htakes.noted
  rw [refreshCosts, hv']
  show (match (ledgers.insert run ledger')[run]? with | none => _ | some ledger => _) = _
  rw [hl']
  show (if !requested.all (requestIds ledger').contains then _ else _) = _
  rw [hids, if_neg (by simp only [hsub]; decide), ha]
  exact congrArg Except.ok (StrMap.insert_insert _ _ _ _)

end

/-- A change of the state that is no refresh: work moves on, and runs are added with
an empty ledger. -/
structure Unrelated (ledgers ledgers' : Ledgers) : Prop where
  kept : ∀ (run : String) ledger, ledgers[run]? = some ledger → ∃ ledger',
    ledgers'[run]? = some ledger' ∧ ledger'.charges = ledger.charges
      ∧ ledger'.chargeUnknown = ledger.chargeUnknown
  added : ∀ (run : String) ledger', ledgers[run]? = none → ledgers'[run]? = some ledger' →
    ledger'.charges = ∅ ∧ ledger'.chargeUnknown = ∅

theorem Unrelated.charged_iff (h : Unrelated ledgers ledgers') {r k : String}
    {c : NativeCostClaim} : Charged ledgers' r k c ↔ Charged ledgers r k c := by
  unfold Charged
  cases hl : ledgers[r]? with
  | some ledger =>
    obtain ⟨ledger', hl', hc, -⟩ := h.kept r ledger hl
    simp [hl', hc]
  | none =>
    refine iff_of_false ?_ (by simp)
    rintro ⟨ledger', hl', hk⟩
    rw [(h.added r ledger' hl hl').1, StrMap.getElem?_empty] at hk
    cases hk

/-- The refreshes that were accepted. -/
abbrev Log := List (String × List NativeCostObservation)

/-- **Runs of the state**, with the log of what was accepted. -/
inductive Run (digest : String → String → NativeCostBasis → String) (start : Ledgers) :
    Log → Ledgers → Prop
  | start : Run digest start [] start
  | refresh {log ledgers ledgers' run requested observations} :
    Run digest start log ledgers →
    refreshCosts digest ledgers run requested observations = .ok ledgers' →
    Run digest start (log ++ [(run, observations)]) ledgers'
  | unrelated {log ledgers ledgers'} :
    Run digest start log ledgers → Unrelated ledgers ledgers' → Run digest start log ledgers'

/-- The last accepted observation of a request of a run. -/
def lastObserved (log : Log) (run request : String) : Option NativeCostObservation :=
  (((log.filter (·.1 = run)).flatMap (·.2)).filter (·.requestId = request)).getLast?

/-- Nothing has been observed yet. -/
def Fresh (ledgers : Ledgers) : Prop :=
  ∀ (run : String) ledger, ledgers[run]? = some ledger →
    ledger.charges = ∅ ∧ ledger.chargeUnknown = ∅

theorem Run.charged {start : Ledgers} {log : Log} (h : Run digest start log ledgers)
    {r k : String} {c : NativeCostClaim} (hc : Charged start r k c) : Charged ledgers r k c := by
  induction h with
  | start => exact hc
  | refresh _ hs ih => exact (refreshCosts_charged hs r k c).1 ih
  | unrelated _ hs ih => exact hs.charged_iff.mpr ih

/-- What the accepted transitions of a log brought. -/
def Brought (digest : String → String → NativeCostBasis → String) (log : Log) (run key : String)
    (c : NativeCostClaim) : Prop :=
  key = c.key digest ∧ ∃ observations, (run, observations) ∈ log ∧ ∃ o ∈ observations, c ∈ o.claims

/-- **A run stores what its accepted transitions brought**, and nothing else. -/
theorem Run.brought {start : Ledgers} {log : Log} (hf : Fresh start)
    (h : Run digest start log ledgers) {r k : String} {c : NativeCostClaim} :
    Charged ledgers r k c ↔ Brought digest log r k c := by
  induction h with
  | start =>
    refine iff_of_false ?_ fun ⟨_, _, hlog, _⟩ => List.not_mem_nil hlog
    rintro ⟨ledger, hl, hk⟩
    rw [(hf r ledger hl).1, StrMap.getElem?_empty] at hk
    cases hk
  | @refresh log ledgers ledgers' run requested observations _ hs ih =>
    constructor
    · intro hc
      rcases (refreshCosts_charged hs r k c).2 hc with hold | ⟨rfl, hkey, ho⟩
      · obtain ⟨hkey, observed, hlog, ho⟩ := ih.mp hold
        exact ⟨hkey, observed, List.mem_append_left _ hlog, ho⟩
      · exact ⟨hkey, observations, by simp, ho⟩
    · rintro ⟨hkey, observed, hlog, o, ho, hc⟩
      rcases List.mem_append.mp hlog with hlog | hlog
      · exact (refreshCosts_charged hs r k c).1 (ih.mpr ⟨hkey, observed, hlog, o, ho, hc⟩)
      · obtain ⟨rfl, rfl⟩ := Prod.mk.inj (List.mem_singleton.mp hlog)
        exact hkey ▸ refreshCosts_taken hs ho hc
  | unrelated _ hs ih => exact hs.charged_iff.trans ih

theorem Fresh.owned (hf : Fresh ledgers) : Owned digest ledgers := by
  have hnone {r k : String} {c : NativeCostClaim} : ¬ Charged ledgers r k c := by
    rintro ⟨ledger, hl, hk⟩
    rw [(hf r ledger hl).1, StrMap.getElem?_empty] at hk
    cases hk
  exact ⟨fun _ _ _ _ _ _ h => absurd h hnone, fun _ _ _ h => absurd h hnone⟩

theorem Run.owned {start : Ledgers} {log : Log} (hown : Owned digest start)
    (h : Run digest start log ledgers) : Owned digest ledgers := by
  induction h with
  | start => exact hown
  | refresh _ hs ih => exact ih.after hs
  | unrelated _ hs ih =>
    exact ⟨fun _ _ _ _ _ _ h₁ h₂ => ih.once _ _ _ _ _ _ (hs.charged_iff.mp h₁)
      (hs.charged_iff.mp h₂), fun _ _ _ h => ih.keyed _ _ _ (hs.charged_iff.mp h)⟩

theorem Owned.unique (hown : Owned digest ledgers) {r k r' k' : String} {c c' : NativeCostClaim}
    (h : Charged ledgers r k c) (h' : Charged ledgers r' k' c') (hb : c'.bill = c.bill)
    (ha : c'.basis = c.basis) : r' = r ∧ k' = k ∧ c' = c := by
  obtain ⟨rfl, -⟩ := hown.once _ _ _ _ _ _ h' h hb
  have hkey : c'.key digest = c.key digest := by
    obtain ⟨hsource, hbill⟩ := Prod.mk.inj hb
    rw [NativeCostClaim.key, NativeCostClaim.key, hsource, hbill, ha]
  obtain rfl : k' = k := by rw [hown.keyed _ _ _ h', hown.keyed _ _ _ h, hkey]
  obtain ⟨ledger, hl, hk⟩ := h
  obtain ⟨ledger', hl', hk'⟩ := h'
  obtain rfl : ledger' = ledger := Option.some.inj (hl'.symm.trans hl)
  exact ⟨rfl, rfl, Option.some.inj (hk'.symm.trans hk)⟩

/-- What is unknown was last said to be. -/
structure Noted (log : Log) (ledgers : Ledgers) : Prop where
  last : ∀ (run : String) ledger, ledgers[run]? = some ledger → ∀ r : String,
    ledger.chargeUnknown[r]? = (lastObserved log run r).bind (·.unknownReason)
  present : ∀ e ∈ log, ledgers[e.1]? ≠ none

theorem lastObserved_concat (log : Log) (run run' r : String) :
    lastObserved (log ++ [(run, observations)]) run' r
      = if run = run' then ((observations.filter (·.requestId = r)).getLast?).or
          (lastObserved log run' r) else lastObserved log run' r := by
  unfold lastObserved
  by_cases h : run = run' <;> simp [h, List.getLast?_append]

theorem lastObserved_none {log : Log} {run : String} (h : ∀ e ∈ log, e.1 ≠ run) (r : String) :
    lastObserved log run r = none := by
  have hf : log.filter (·.1 = run) = [] :=
    List.filter_eq_nil_iff.mpr fun e he => by simpa using h e he
  rw [lastObserved, hf]
  rfl

theorem Run.noted {start : Ledgers} {log : Log} (hf : Fresh start)
    (h : Run digest start log ledgers) : Noted log ledgers := by
  induction h with
  | start =>
    refine ⟨fun run ledger hl r => ?_, by simp⟩
    rw [(hf run ledger hl).2, StrMap.getElem?_empty]
    rfl
  | @refresh log ledgers ledgers' run requested observations _ hs ih =>
    obtain ⟨ledger, ledger', -, hl, -, -, ht, rfl⟩ := refreshCosts_ok hs
    have htakes := takeObservations_takes ht
    refine ⟨fun run' l hl' r => ?_, fun e he => ?_⟩
    · rw [lastObserved_concat]
      rw [StrMap.getElem?_insert] at hl'
      split at hl'
      · rename_i heq
        obtain rfl := Option.some.inj hl'
        rw [if_pos heq, htakes.unknown, ih.last run ledger hl, heq]
        cases (observations.filter (·.requestId = r)).getLast? <;> rfl
      · rename_i hne
        rw [if_neg hne]
        exact ih.last run' l hl' r
    · rw [StrMap.getElem?_insert]
      split
      · simp
      · rename_i hne
        rcases List.mem_append.mp he with he | he
        · exact ih.present e he
        · exact absurd (congrArg Prod.fst (List.mem_singleton.mp he)).symm hne
  | @unrelated log ledgers ledgers' _ hs ih =>
    refine ⟨fun run ledger' hl' r => ?_, fun e he => ?_⟩
    · cases hl : ledgers[run]? with
      | some ledger =>
        obtain ⟨l, hl'', -, hu⟩ := hs.kept run ledger hl
        obtain rfl := Option.some.inj (hl'.symm.trans hl'')
        rw [hu, ih.last run ledger hl]
      | none =>
        rw [(hs.added run ledger' hl hl').2, StrMap.getElem?_empty,
          lastObserved_none fun e he heq => ih.present e he (heq ▸ hl)]
        rfl
    · cases hl : ledgers[e.1]? with
      | none => exact absurd hl (ih.present e he)
      | some ledger =>
        obtain ⟨l, hl', -⟩ := hs.kept e.1 ledger hl
        simp [hl']

/-! ## Main results -/

/-- **Bills of a run of transitions.** From ledgers nothing has been observed for: the
ledgers store exactly the claims that accepted transitions brought; every bill has one
owner, over all ledgers and bases; a claim once stored stays, and is the only one of its
source, bill and basis; a charge is unknown as the last observation of its request left
it; and to repeat a transition changes nothing, or, at any later time, no charge. -/
theorem run_claims (digest : String → String → NativeCostBasis → String) {start ledgers : Ledgers}
    {log : Log} (hf : Fresh start) (h : Run digest start log ledgers) :
    (∀ r k c, Charged ledgers r k c ↔ Brought digest log r k c)
      ∧ (∀ r₁ k₁ c₁ r₂ k₂ c₂, Charged ledgers r₁ k₁ c₁ → Charged ledgers r₂ k₂ c₂ →
        c₁.bill = c₂.bill → r₁ = r₂ ∧ c₁.requestId = c₂.requestId)
      ∧ (∀ log' later, Run digest ledgers log' later → ∀ r k c, Charged ledgers r k c →
          Charged later r k c ∧ ∀ r' k' c', Charged later r' k' c' → c'.bill = c.bill →
            c'.basis = c.basis → r' = r ∧ k' = k ∧ c' = c)
      ∧ (∀ (run : String) ledger, ledgers[run]? = some ledger → ∀ r : String,
          ledger.chargeUnknown[r]? = (lastObserved log run r).bind (·.unknownReason))
      ∧ ∀ run requested observations ledgers',
          refreshCosts digest ledgers run requested observations = .ok ledgers' →
          refreshCosts digest ledgers' run requested observations = .ok ledgers'
            ∧ ∀ log' later again, Run digest ledgers' log' later →
              refreshCosts digest later run requested observations = .ok again →
              ∀ r k c, Charged again r k c ↔ Charged later r k c := by
  have hown := h.owned hf.owned
  refine ⟨fun r k c => h.brought hf, hown.once,
    fun log' later hl r k c hc => ⟨hl.charged hc, fun r' k' c' =>
      (hl.owned hown).unique (hl.charged hc)⟩,
    (h.noted hf).last, fun run requested observations ledgers' hs => ⟨hown.again hs,
      fun log' later again hl ha r k c => ⟨fun hc => ?_, (refreshCosts_charged ha r k c).1⟩⟩⟩
  rcases (refreshCosts_charged ha r k c).2 hc with hc | ⟨rfl, rfl, o, ho, hm⟩
  · exact hc
  · exact hl.charged (refreshCosts_taken hs ho hm)

/-! A sample: a request of each of two runs is billed. The bill of the first is
estimated, and later reported together with the estimate again. -/

/-- A reported bill of the one attempt of a run. -/
def sampleClaim (requestId billId : String) (basis : NativeCostBasis) (microUsd : UInt64) :
    NativeCostClaim where
  requestId := requestId
  source := "store"
  billId := billId
  basis := basis
  scope := .requestBill
  microUsd := microUsd
  evidenceSha256 := "sha256:0123456789abcdef0123456789abcdef0123456789abcdef0123456789abcdef"
  provider := "p"
  model := "m"

def estimated : NativeCostClaim := sampleClaim "q" "b1" .estimated 38

def reported : NativeCostClaim := sampleClaim "q" "b1" .reported 40

def other : NativeCostClaim := sampleClaim "p" "b2" .reported 7

def sampleLedgers : Ledgers :=
  ((∅ : Ledgers).insert "r"
    { work := (∅ : StrMap CostWork).insert "w" ⟨some "q", .providerAttempt⟩ }).insert "s"
    { work := (∅ : StrMap CostWork).insert "w" ⟨some "p", .preparationCallback⟩ }

def sampleDigest (source billId : String) : NativeCostBasis → String
  | .estimated => source ++ "," ++ billId ++ ",estimated"
  | .reported => source ++ "," ++ billId ++ ",reported"
  | .reconciled => source ++ "," ++ billId ++ ",reconciled"

def sampleLog : Log :=
  [("r", [⟨"q", [estimated], some "unreconciled"⟩]), ("s", [⟨"p", [other], none⟩]),
    ("r", [⟨"q", [estimated, reported], none⟩])]

theorem sampleLedgers_fresh : Fresh sampleLedgers := by
  intro run ledger hl
  rw [sampleLedgers, StrMap.getElem?_insert, StrMap.getElem?_insert, StrMap.getElem?_empty] at hl
  split at hl
  · obtain rfl := Option.some.inj hl
    exact ⟨rfl, rfl⟩
  · split at hl
    · obtain rfl := Option.some.inj hl
      exact ⟨rfl, rfl⟩
    · cases hl

theorem sampleLog_run : ∃ ledgers, Run sampleDigest sampleLedgers sampleLog ledgers := by
  obtain ⟨first, second, third, h₁, h₂, h₃⟩ : ∃ first second third,
      refreshCosts sampleDigest sampleLedgers "r" ["q"]
          [⟨"q", [estimated], some "unreconciled"⟩] = .ok first
        ∧ refreshCosts sampleDigest first "s" ["p"] [⟨"p", [other], none⟩] = .ok second
        ∧ refreshCosts sampleDigest second "r" ["q"] [⟨"q", [estimated, reported], none⟩]
          = .ok third := ⟨_, _, _, rfl, rfl, rfl⟩
  exact ⟨third, ((Run.start.refresh h₁).refresh h₂).refresh h₃⟩

theorem run_claims_billed :
    ∃ ledgers, Run sampleDigest sampleLedgers sampleLog ledgers
      ∧ Charged ledgers "r" "store,b1,estimated" estimated
      ∧ Charged ledgers "r" "store,b1,reported" reported
      ∧ Charged ledgers "s" "store,b2,reported" other
      ∧ ∀ ledger, ledgers["r"]? = some ledger → ledger.chargeUnknown["q"]? = none := by
  obtain ⟨ledgers, hrun⟩ := sampleLog_run
  obtain ⟨hstored, -, -, hunknown, -⟩ := run_claims sampleDigest sampleLedgers_fresh hrun
  refine ⟨ledgers, hrun, (hstored _ _ _).mpr ⟨rfl, _, List.mem_cons_self, _,
    List.mem_cons_self, List.mem_cons_self⟩, (hstored _ _ _).mpr ⟨rfl, _,
    List.mem_cons_of_mem _ (List.mem_cons_of_mem _ List.mem_cons_self), _, List.mem_cons_self,
    List.mem_cons_of_mem _ List.mem_cons_self⟩, (hstored _ _ _).mpr ⟨rfl, _,
    List.mem_cons_of_mem _ List.mem_cons_self, _, List.mem_cons_self, List.mem_cons_self⟩,
    fun ledger hl => ?_⟩
  rw [hunknown "r" ledger hl "q"]
  rfl

end Ledger

end BitRouter.Accounting
