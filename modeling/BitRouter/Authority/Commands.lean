import BitRouter.Authority.Grants
import BitRouter.Authority.Keyed

/-!
# What commands do

One lemma for each command: what is in the facts after it, the records it writes, and
what the caller and the facts before it have met. Later modules read these lemmas and
never the commands.
-/

namespace BitRouter.Authority

open BitRouter.Tenancy (Identifier TenantId PrincipalId RevisionId CredentialId)

variable {host : Host} {generated : Generated} {state next : Snapshot} {caller : Caller}
variable {principal : PrincipalId} {tenant : TenantId} {id : CredentialId} {now later : Instant}
variable {effective : Effective} {applied : Applied}

/-! ## Authority of a credential caller -/

/-- **The credential and the binding that a caller's authority is made of.** -/
structure Live (state : Snapshot) (id : CredentialId) (tenant : TenantId) (now : Instant)
    (effective : Effective) : Prop where
  credential : state.credentials[id]? = some effective.credential
  active : effective.credential.state = .active
  unexpired : now < effective.credential.expires.instant
  home : effective.credential.tenant = tenant
  ordinary : effective.credential.auditReader = false
  tenantActive : state.tenants[tenant]?.map Tenant.state = some .active
  binding : ∃ name, effective.credential.binding = some name
    ∧ state.bindings[(tenant, name)]? = some effective.binding
  principal : effective.binding.principal = effective.credential.principal
  bindingUnexpired : now < effective.binding.expires.instant

theorem credential_eq_ok {credential : Credential} :
    state.credential (.credential id) now = .ok credential ↔
      state.credentials[id]? = some credential ∧ credential.state = .active
        ∧ now < credential.expires.instant := by
  unfold Snapshot.credential
  rw [orFail_eq_ok, Option.filter_eq_some_iff, Bool.and_eq_true, decide_eq_true_eq,
    decide_eq_true_eq]

theorem effective_eq_ok :
    state.effective (.credential id) tenant now = .ok effective ↔
      Live state id tenant now effective := by
  unfold Snapshot.effective
  constructor
  · intro h
    simp only [bind_eq_ok, credential_eq_ok, ensure_eq_ok, orFail_eq_ok, pure_eq_ok,
      Option.filter_eq_some_iff, Option.bind_eq_some_iff, Bool.and_eq_true,
      decide_eq_true_eq] at h
    obtain ⟨credential, ⟨hfound, hactive, hlive⟩, _, ⟨htenant, haudit⟩, _, hstate, binding,
      ⟨hbinding, hprincipal, hexpires⟩, rfl⟩ := h
    exact ⟨hfound, hactive, hlive, htenant, haudit, hstate, hbinding, hprincipal, hexpires⟩
  · rintro ⟨hfound, hactive, hlive, htenant, haudit, hstate, hbinding, hprincipal, hexpires⟩
    simp only [bind_eq_ok, credential_eq_ok, ensure_eq_ok, orFail_eq_ok, pure_eq_ok,
      Option.filter_eq_some_iff, Option.bind_eq_some_iff, Bool.and_eq_true,
      decide_eq_true_eq]
    exact ⟨effective.credential, ⟨hfound, hactive, hlive⟩, (), ⟨htenant, haudit⟩, (), hstate,
      effective.binding, ⟨hbinding, hprincipal, hexpires⟩, rfl⟩

namespace Live

/-- At any two times the authority is of the same records. -/
theorem unique (h : Live state id tenant now effective) {other : Effective} {owner : TenantId}
    (hother : Live state id owner later other) : effective = other ∧ tenant = owner := by
  have hcredential : effective.credential = other.credential :=
    Option.some.inj (h.credential.symm.trans hother.credential)
  have htenant : tenant = owner := by rw [← h.home, hcredential, hother.home]
  obtain ⟨name, hname, hbinding⟩ := h.binding
  obtain ⟨name', hname', hbinding'⟩ := hother.binding
  rw [← hcredential, hname] at hname'
  rw [← htenant, ← Option.some.inj hname', hbinding] at hbinding'
  refine ⟨?_, htenant⟩
  cases effective
  cases other
  rw [Effective.mk.injEq]
  exact ⟨hcredential, Option.some.inj hbinding'⟩

theorem of_prune (h : Live (state.prune later) id tenant now effective) :
    Live state id tenant now effective :=
  ⟨(TreeReads.getElem?_filter_eq_some.mp h.credential).1, h.active, h.unexpired, h.home,
    h.ordinary, h.tenantActive, h.binding, h.principal, h.bindingUnexpired⟩

end Live

theorem authorize_credential {permission : Permission} {scope : GrantScope}
    (h : state.authorize (.credential id) tenant permission scope now = .ok ()) :
    ∃ effective, Live state id tenant now effective ∧ effective.permits permission = true
      ∧ effective.covers scope = true := by
  replace h := (if_neg (fun hinstallation : (Caller.credential id).isInstallation = true =>
    Bool.false_ne_true hinstallation)).symm.trans h
  simp only [bind_eq_ok, ensure_eq_ok] at h
  obtain ⟨effective, heffective, hpermits, hcovers⟩ := h
  exact ⟨effective, effective_eq_ok.mp heffective, hpermits, hcovers⟩

theorem withinCaller_credential {permissions : List Permission} {expiresAt : String}
    (h : withinCaller host state (.credential id) tenant permissions expiresAt now = .ok ()) :
    ∃ effective expires, Live state id tenant now effective
      ∧ host.deadline expiresAt = .ok expires ∧ permissions.all effective.permits = true
      ∧ effective.allowsExpiry expires.instant = true := by
  replace h := (if_neg (fun hinstallation : (Caller.credential id).isInstallation = true =>
    Bool.false_ne_true hinstallation)).symm.trans h
  simp only [bind_eq_ok, ensure_eq_ok] at h
  obtain ⟨effective, heffective, expires, hexpires, hpermits, hallows⟩ := h
  exact ⟨effective, expires, effective_eq_ok.mp heffective, hexpires, hpermits, hallows⟩

variable {expires : Deadline}

/-- **What is prepared for a credential caller is within its authority.** -/
theorem within_grant {permission : Permission} {scope : GrantScope}
    {permissions : List Permission} {expiresAt : String}
    (hauthorize : state.authorize (.credential id) tenant permission scope now = .ok ())
    (hwithin : withinCaller host state (.credential id) tenant permissions expiresAt now = .ok ())
    (hexpires : host.deadline expiresAt = .ok expires) :
    ∃ effective, Live state id tenant now effective
      ∧ (({permission | permission ∈ permissions}, keysOf scope tenant, expires.instant) : Grant)
          ≤ effective.grant := by
  -- Both checks have found the same records.
  obtain ⟨effective, hlive, -, hcovers⟩ := authorize_credential hauthorize
  obtain ⟨other, expiry, hother, hexpiry, hpermits, hallows⟩ := withinCaller_credential hwithin
  obtain ⟨rfl, -⟩ := hlive.unique hother
  have hsame : expires = expiry := Except.ok.inj (hexpires.symm.trans hexpiry)
  rw [← hsame] at hallows
  refine ⟨effective, hlive, ?_⟩
  have hle := Effective.le_grant hcovers hpermits hallows
  rw [hlive.home] at hle
  exact hle

/-! ## Bindings -/

theorem isInstallation_of_managedBy {expected : Option PrincipalId} {old : Option Binding}
    {manager : Option ManagedBy} (h : managedBy caller principal expected old = .ok manager)
    (hclass : manager.any (·.authorityClass = .installation) = true) :
    caller.isInstallation = true := by
  have hown (hcaller : caller.authorityClass = .installation) : caller.isInstallation = true := by
    cases caller with
    | installation => rfl
    | credential => cases hcaller
  cases old with
  | none =>
    have hmanager : some ⟨principal, caller.authorityClass⟩ = manager := Except.ok.inj h
    rw [← hmanager] at hclass
    exact hown (of_decide_eq_true hclass)
  | some old =>
    unfold managedBy at h
    simp only [bind_eq_ok, ensure_eq_ok] at h
    obtain ⟨_, -, h⟩ := h
    split at h
    · split at h
      · next owner _ howner =>
        rw [pure_eq_ok] at h
        rw [← h] at hclass
        exact hown (howner.2.symm.trans (of_decide_eq_true hclass))
      · cases h
    · split at h
      · rw [pure_eq_ok] at h
        rw [← h] at hclass
        cases hclass
      · cases h

theorem applyBinding_ok {name : BindingId} {input : BindingPut}
    (h : applyBinding host generated now caller principal tenant name input state
      = .ok (next, applied)) :
    ∃ binding : Binding, binding.tenant = tenant ∧ binding.role = input.role
      ∧ binding.scope = input.scope ∧ host.deadline input.expiresAt = .ok binding.expires
      ∧ (binding.byInstallation = true → caller.isInstallation = true)
      ∧ next = { state with bindings := state.bindings.insert (tenant, name) binding }
      ∧ applied.changes = [.binding binding] := by
  unfold applyBinding at h
  simp only [bind_eq_ok, pure_eq_ok] at h
  obtain ⟨_, -, _, -, expires, hexpires, _, -, _, -, _, -, manager, hmanager, h⟩ := h
  rw [Prod.mk.injEq] at h
  rw [← h.1, ← h.2]
  exact ⟨_, rfl, rfl, rfl, hexpires, isInstallation_of_managedBy hmanager, rfl, rfl⟩

theorem applyDetach_ok {name : BindingId} {expected : RevisionId}
    (h : applyDetach generated tenant name expected state = .ok (next, applied)) :
    ∃ old binding, state.bindings[(tenant, name)]? = some old
      ∧ binding = { old with managedBy := none, revision := generated.revision }
      ∧ next = { state with bindings := state.bindings.insert (tenant, name) binding }
      ∧ applied.changes = [.binding binding] := by
  unfold applyDetach at h
  simp only [bind_eq_ok, orFail_eq_ok, pure_eq_ok] at h
  obtain ⟨old, hold, _, -, h⟩ := h
  rw [Prod.mk.injEq] at h
  rw [← h.1, ← h.2]
  exact ⟨old, _, hold, rfl, rfl, rfl⟩

/-! ## Credentials -/

def Credential.revoke (credential : Credential) (revision : RevisionId) : Credential :=
  { credential with state := .revoked, revision := revision }

theorem applyRevoke_ok {prepared : Prepared} {expected : RevisionId}
    (h : applyRevoke generated now prepared id expected state = .ok (next, applied)) :
    next = state ∧ applied.changes = [] ∨
      ∃ credential, prepared.credential = some credential
        ∧ next = applyCredential state (credential.revoke generated.revision) now
        ∧ applied.changes = [.credential (credential.revoke generated.revision)] := by
  unfold applyRevoke at h
  simp only [bind_eq_ok, orFail_eq_ok] at h
  obtain ⟨credential, hcredential, _, -, h⟩ := h
  split at h
  · rw [pure_eq_ok, Prod.mk.injEq] at h
    rw [← h.1, ← h.2]
    exact .inl ⟨rfl, rfl⟩
  · rw [pure_eq_ok, Prod.mk.injEq] at h
    rw [← h.1, ← h.2]
    exact .inr ⟨credential, hcredential, rfl, rfl⟩

/-- The credential that is issued for a request. -/
def CredentialCreate.credential (input : CredentialCreate) (host : Host) (generated : Generated)
    (now : Instant) (tenant : TenantId) (expires : Deadline) : Credential where
  id := generated.credential
  tenant := tenant
  principal := input.principalId
  binding := some input.bindingId
  revision := generated.revision
  keyHash := host.hashKey generated.secret
  state := .active
  auditReader := false
  permissions := input.permissions
  scope := input.scope
  expires := expires
  createdAt := now

variable {input : CredentialCreate}

theorem applyIssue_ok (h : applyIssue host generated now tenant input state = .ok (next, applied)) :
    ∃ binding expires old, state.bindings[(tenant, input.bindingId)]? = some binding
      ∧ host.deadline input.expiresAt = .ok expires ∧ now < expires.instant
      ∧ withinBinding tenant input expires binding = true
      ∧ predecessor tenant input expires now state = .ok old
      ∧ next = applyCredential
          ((old.map fun old => old.revoke generated.rotated).elim state
            fun old => applyCredential state old now)
          (input.credential host generated now tenant expires) now
      ∧ applied.changes = (old.map fun old => old.revoke generated.rotated).toList.map .credential
          ++ [.credential (input.credential host generated now tenant expires)] := by
  unfold applyIssue at h
  simp only [bind_eq_ok, orFail_eq_ok, ensure_eq_ok, pure_eq_ok] at h
  obtain ⟨_, -, _, -, binding, hbinding, expires, hexpires, _, hlive, _, hwithin, old, hold, h⟩ := h
  rw [Prod.mk.injEq] at h
  rw [← h.1, ← h.2]
  exact ⟨binding, expires, old, hbinding, hexpires, hlive, hwithin, hold, rfl, rfl⟩

theorem predecessor_ok {old : Option Credential}
    (h : predecessor tenant input expires now state = .ok old) :
    input.rotateCredentialId = none ∧ old = none ∨
      ∃ name credential, input.rotateCredentialId = some name ∧ old = some credential
        ∧ state.credentials[name]? = some credential
        ∧ withinPredecessor tenant input expires credential = true := by
  unfold predecessor at h
  split at h
  · next hnone => exact .inl ⟨hnone, (Except.ok.inj h).symm⟩
  · next name hname =>
    simp only [bind_eq_ok, orFail_eq_ok, ensure_eq_ok, pure_eq_ok,
      Option.filter_eq_some_iff] at h
    obtain ⟨credential, ⟨hfound, -⟩, _, hwithin, h⟩ := h
    exact .inr ⟨name, credential, hname, h.symm, hfound, hwithin⟩

theorem applyAuditReader_ok {input : AuditReaderCreate}
    (h : applyAuditReader host generated now tenant input state = .ok (next, applied)) :
    ∃ credential : Credential, credential.id = generated.credential ∧ credential.tenant = tenant
      ∧ credential.keyHash = host.hashKey generated.secret ∧ credential.auditReader = true
      ∧ next = applyCredential state credential now
      ∧ applied.changes = [.credential credential] := by
  unfold applyAuditReader at h
  simp only [bind_eq_ok, pure_eq_ok] at h
  obtain ⟨_, -, _, -, expires, -, _, -, h⟩ := h
  rw [Prod.mk.injEq] at h
  rw [← h.1, ← h.2]
  exact ⟨_, rfl, rfl, rfl, rfl, rfl, rfl⟩

/-- **What is issued is within the binding it is issued for.** -/
theorem CredentialCreate.grant_le_binding {binding : Binding}
    (h : withinBinding tenant input expires binding = true) (hhome : binding.tenant = tenant) :
    (input.credential host generated now tenant expires).grant ≤ binding.grant := by
  unfold withinBinding at h
  simp only [Bool.and_eq_true, decide_eq_true_eq] at h
  obtain ⟨⟨⟨⟨-, hexpires⟩, hpermissions⟩, hscope⟩, -⟩ := h
  refine ⟨fun permission hmem => List.contains_iff_mem.mp
    (List.all_eq_true.mp hpermissions permission hmem), ?_, hexpires⟩
  show keysOf input.scope tenant ⊆ keysOf binding.scope binding.tenant
  rw [hhome]
  exact keysOf_subset hscope

/-- **What is issued is within the credential it takes the place of.** -/
theorem CredentialCreate.grant_le_predecessor {old : Credential}
    (h : withinPredecessor tenant input expires old = true) :
    old.tenant = tenant
      ∧ (input.credential host generated now tenant expires).grant ≤ old.grant := by
  unfold withinPredecessor at h
  simp only [Bool.and_eq_true, decide_eq_true_eq] at h
  obtain ⟨⟨⟨⟨⟨⟨hhome, -⟩, -⟩, -⟩, hscope⟩, hpermissions⟩, hexpires⟩ := h
  refine ⟨hhome, fun permission hmem => List.contains_iff_mem.mp
    (List.all_eq_true.mp hpermissions permission hmem), ?_, hexpires⟩
  show keysOf input.scope tenant ⊆ keysOf old.scope old.tenant
  rw [hhome]
  exact keysOf_subset hscope

/-! ## Other commands -/

theorem applyTenant_ok {name : TenantId} {expected : Option RevisionId} {tenantState : TenantState}
    (h : applyTenant generated now name expected tenantState state = .ok (next, applied)) :
    ∃ tenant, next = { state with tenants := state.tenants.insert name tenant }
      ∧ applied.changes = [.tenant tenant] := by
  unfold applyTenant at h
  simp only [bind_eq_ok, pure_eq_ok] at h
  obtain ⟨_, -, h⟩ := h
  rw [Prod.mk.injEq] at h
  rw [← h.1, ← h.2]
  exact ⟨_, rfl, rfl⟩

theorem applyPrincipal_ok {name : PrincipalId} {expected : Option RevisionId}
    {issuer subject : String}
    (h : applyPrincipal generated now name expected issuer subject state = .ok (next, applied)) :
    ∃ value, next = { state with principals := state.principals.insert name value }
      ∧ applied.changes = [.principal value] := by
  unfold applyPrincipal at h
  simp only [bind_eq_ok, pure_eq_ok] at h
  obtain ⟨_, -, _, -, _, -, h⟩ := h
  rw [Prod.mk.injEq] at h
  rw [← h.1, ← h.2]
  exact ⟨_, rfl, rfl⟩

end BitRouter.Authority
