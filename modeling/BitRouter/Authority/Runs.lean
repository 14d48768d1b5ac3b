import BitRouter.Authority.Delegation

/-!
# Runs of commands

A command is prepared and made on the facts without what has expired, and the records
it writes are stored. Two things are shown of it: it keeps the delegation, and what a
tenant caller writes by it lies within the authority that the caller has when the
command is made.
-/

namespace BitRouter.Authority

open BitRouter.Tenancy (Identifier TenantId PrincipalId RevisionId CredentialId)

variable {host : Host} {world next : World} {state candidate : Snapshot} {request : Request}
variable {applied : Applied} {prepared : Prepared} {stored : IdMap Credential}
variable {caller : Caller} {principal : PrincipalId} {tenant : TenantId} {now : Instant}
variable {id : CredentialId} {generated : Generated} {command : Command}

/-! ## What preparation has met -/

theorem isInstallation_of_operator (h : operator caller = .ok ()) : caller.isInstallation = true :=
  ensure_eq_ok.mp h

theorem prepare_binding {name : BindingId} {input : BindingPut}
    (h : prepare host stored state caller (.binding tenant name input) now = .ok prepared) :
    state.authorize caller tenant .bindingManage input.scope now = .ok ()
      ∧ withinCaller host state caller tenant input.role.permissions input.expiresAt now
          = .ok () := by
  unfold prepare at h
  simp only [bind_eq_ok] at h
  obtain ⟨_, hauthorize, _, -, h⟩ := h
  refine ⟨hauthorize, ?_⟩
  split at h
  · simp only [bind_eq_ok] at h
    obtain ⟨_, -, _, hwithin, -⟩ := h
    exact hwithin
  · simp only [bind_eq_ok] at h
    obtain ⟨_, hwithin, -⟩ := h
    exact hwithin

theorem prepare_issue {input : CredentialCreate}
    (h : prepare host stored state caller (.issue tenant input) now = .ok prepared) :
    state.authorize caller tenant .credentialIssue input.scope now = .ok ()
      ∧ withinCaller host state caller tenant input.permissions input.expiresAt now
          = .ok () := by
  unfold prepare at h
  simp only [bind_eq_ok] at h
  obtain ⟨_, hauthorize, _, hwithin, -⟩ := h
  exact ⟨hauthorize, hwithin⟩

/-- The commands that only an installation caller gives. -/
def Command.operatorOnly : Command → Bool
  | .tenant _ _ _ | .principal _ _ _ _ | .auditReader _ _ | .detach _ _ _ => true
  | _ => false

theorem prepare_operatorOnly (hcommand : command.operatorOnly = true)
    (h : prepare host stored state caller command now = .ok prepared) :
    caller.isInstallation = true := by
  cases command with
  | binding => cases hcommand
  | issue => cases hcommand
  | revoke => cases hcommand
  | tenant | principal | auditReader | detach =>
    obtain ⟨_, hoperator, -⟩ := bind_eq_ok.mp h
    exact isInstallation_of_operator hoperator

/-! ## What is written -/

/-- The authority that a record gives: a revoked credential gives none. -/
def Change.authority : Change → Option (TenantId × Grant)
  | .binding value => some (value.tenant, value.grant)
  | .credential value => if value.state = .active then some (value.tenant, value.grant) else none
  | _ => none

/-- **What is prepared for a credential caller and then made lies within its authority**,
as it is when the command is made. -/
theorem written_of_applied
    (hprepare : prepare host stored state (.credential id) command now = .ok prepared)
    {later : Instant} (happly : applyCommand host generated state
      (.credential id) principal prepared
      later command = .ok (candidate, applied))
    {change : Change} (hchange : change ∈ applied.changes) {authority : Grant}
    (hauthority : change.authority = some (tenant, authority)) :
    ∃ effective, Live state id tenant now effective ∧ authority ≤ effective.grant := by
  have hcaller : ¬ (Caller.credential id).isInstallation = true := Bool.false_ne_true
  cases command with
  | tenant => exact absurd (prepare_operatorOnly rfl hprepare) hcaller
  | principal => exact absurd (prepare_operatorOnly rfl hprepare) hcaller
  | auditReader => exact absurd (prepare_operatorOnly rfl hprepare) hcaller
  | detach => exact absurd (prepare_operatorOnly rfl hprepare) hcaller
  | binding owner name input =>
    obtain ⟨binding, hhome, hrole, hscope, hexpires, -, -, hchanges⟩ := applyBinding_ok happly
    rw [hchanges, List.mem_singleton] at hchange
    rw [hchange] at hauthority
    obtain ⟨rfl, rfl⟩ := Prod.mk.inj (Option.some.inj hauthority)
    obtain ⟨hauthorize, hwithin⟩ := prepare_binding hprepare
    rw [hhome]
    obtain ⟨effective, hlive, hle⟩ := within_grant hauthorize hwithin hexpires
    refine ⟨effective, hlive, ?_⟩
    show (({permission | permission ∈ binding.role.permissions},
      keysOf binding.scope binding.tenant, binding.expires.instant) : Grant) ≤ _
    rw [hrole, hscope, hhome]
    exact hle
  | issue owner input =>
    obtain ⟨binding, expires, old, -, hexpires, -, -, -, -, hchanges⟩ := applyIssue_ok happly
    rw [hchanges, List.mem_append, List.mem_map, List.mem_singleton] at hchange
    rcases hchange with ⟨revoked, hrevoked, rfl⟩ | rfl
    · -- The credential that is rotated gives no authority any more.
      rw [Option.mem_toList, Option.map_eq_some_iff] at hrevoked
      obtain ⟨_, -, rfl⟩ := hrevoked
      cases hauthority
    · obtain ⟨rfl, rfl⟩ := Prod.mk.inj (Option.some.inj hauthority)
      obtain ⟨hauthorize, hwithin⟩ := prepare_issue hprepare
      exact within_grant hauthorize hwithin hexpires
  | revoke owner name expected =>
    rcases applyRevoke_ok happly with ⟨-, hchanges⟩ | ⟨credential, -, -, hchanges⟩
    · rw [hchanges] at hchange
      exact absurd hchange List.not_mem_nil
    · rw [hchanges, List.mem_singleton] at hchange
      rw [hchange] at hauthority
      cases hauthority

theorem live_of_currentAuthority (h : currentAuthority state (.credential id) now = .ok ()) :
    ∃ owner effective, Live state id owner now effective := by
  replace h := (if_neg (fun hinstallation : (Caller.credential id).isInstallation = true =>
    Bool.false_ne_true hinstallation)).symm.trans h
  simp only [bind_eq_ok] at h
  obtain ⟨credential, -, effective, heffective, -⟩ := h
  exact ⟨credential.tenant, effective, effective_eq_ok.mp heffective⟩

/-- The parts of an execution. -/
theorem execute_ok (h : world.execute host request = .ok (next, applied)) :
    ∃ principal prepared candidate,
      prepare host world.stored (world.state.prune request.read) request.caller request.command
          request.prepare = .ok prepared
        ∧ currentAuthority (world.state.prune request.read) request.caller request.apply = .ok ()
        ∧ applyCommand host request.generated (world.state.prune request.read) request.caller
            principal prepared request.apply request.command = .ok (candidate, applied)
        ∧ next = ⟨{ candidate with revision := world.state.revision + 1 },
            applied.changes.foldl Change.store world.stored,
            world.grants ++ request.granted applied⟩ := by
  unfold World.execute apply at h
  simp only [bind_eq_ok, pure_eq_ok] at h
  obtain ⟨principal, -, prepared, hprepare, made, ⟨_, hcurrent, happly⟩, h⟩ := h
  obtain ⟨candidate, _⟩ := made
  obtain ⟨hnext, happlied⟩ := Prod.mk.inj h
  rw [← happlied, ← hnext]
  exact ⟨principal, prepared, candidate, hprepare, hcurrent, happly, rfl⟩

/-! ## Delegation is kept -/

private theorem granted_installation {owner : PrincipalId} {name : BindingId}
    {input : BindingPut} {read prepare apply : Instant} {binding : Binding}
    (hchanges : applied.changes = [.binding binding]) :
    (Request.mk (.installation owner) (.binding tenant name input) read prepare apply
      generated).granted applied = [binding] := by
  show applied.changes.filterMap Change.binding? = [binding]
  rw [hchanges]
  rfl

/-- **A command that is made keeps the delegation.** -/
theorem World.Delegated.execute (h : world.Delegated) (hfresh : request.Fresh host world)
    (hexecute : world.execute host request = .ok (next, applied)) : next.Delegated := by
  obtain ⟨principal, prepared, candidate, hprepare, hcurrent, happly, hnext⟩ := execute_ok hexecute
  have hpruned : World.Delegated ⟨world.state.prune request.read, world.stored, world.grants⟩ :=
    World.Delegated.prune h
  have hsub : world.grants ⊆ world.grants ++ request.granted applied :=
    List.subset_append_left _ _
  suffices hmade : World.Delegated ⟨candidate, applied.changes.foldl Change.store world.stored,
      world.grants ++ request.granted applied⟩ by
    rw [hnext]
    exact hmade.frame rfl rfl rfl fun _ => id
  obtain ⟨caller, command, read, prepare, apply, generated⟩ := request
  cases command with
  | tenant name expected tenantState =>
    obtain ⟨tenant, hcandidate, hchanges⟩ := applyTenant_ok happly
    rw [hcandidate, hchanges]
    exact hpruned.frame rfl rfl rfl hsub
  | principal name expected issuer subject =>
    obtain ⟨value, hcandidate, hchanges⟩ := applyPrincipal_ok happly
    rw [hcandidate, hchanges]
    exact hpruned.frame rfl rfl rfl hsub
  | binding tenant name input =>
    obtain ⟨binding, hhome, -, -, -, hclass, hcandidate, hchanges⟩ := applyBinding_ok happly
    cases caller with
    | installation owner =>
      rw [granted_installation hchanges] at hsub ⊢
      rw [hcandidate, hchanges]
      have hmem : binding ∈ world.grants ++ [binding] :=
        List.mem_append_right _ (List.mem_singleton_self _)
      exact hpruned.bind hhome ⟨binding, hmem, hhome, le_rfl⟩ (fun _ => hmem) hsub
    | credential id =>
      have hchange : Change.binding binding ∈ applied.changes := by
        rw [hchanges]
        exact List.mem_singleton_self _
      obtain ⟨effective, hlive, hle⟩ := written_of_applied hprepare happly hchange rfl
      have hbound := ((hpruned.granted hlive).le hle).mono hsub
      rw [hhome] at hbound
      rw [hcandidate, hchanges]
      exact hpruned.bind hhome hbound (fun h => absurd (hclass h) Bool.false_ne_true) hsub
  | detach tenant name expected =>
    obtain ⟨old, binding, hold, hbinding, hcandidate, hchanges⟩ := applyDetach_ok happly
    have hhome : old.tenant = tenant := hpruned.homed hold
    have hbound := (hpruned.bound hold).mono hsub
    rw [hcandidate, hchanges]
    refine hpruned.bind ((congrArg Binding.tenant hbinding).trans hhome) ?_ ?_ hsub
    · rw [hhome] at hbound
      rw [hbinding]
      exact hbound
    · -- No one manages a binding that is detached.
      rw [hbinding]
      exact fun hclass => nomatch hclass
  | revoke tenant name expected =>
    rcases applyRevoke_ok happly with ⟨hcandidate, hchanges⟩ | ⟨credential, -, hcandidate, hchanges⟩
    · rw [hcandidate, hchanges]
      exact hpruned.frame rfl rfl rfl hsub
    · rw [hcandidate, hchanges]
      exact (hpruned.revoke credential generated.revision apply).frame rfl rfl rfl hsub
  | auditReader tenant input =>
    obtain ⟨hid, hhash⟩ := hfresh rfl
    obtain ⟨credential, hname, -, hkey, haudit, hcandidate, hchanges⟩ := applyAuditReader_ok happly
    rw [hcandidate, hchanges]
    refine (hpruned.issue (hname ▸ hid) (fun hold => ?_) fun hordinary => ?_).frame rfl rfl rfl hsub
    · rw [hkey]
      exact hhash hold
    · exact absurd (haudit.symm.trans hordinary) (Ne.symm Bool.false_ne_true)
  | issue tenant input =>
    obtain ⟨hid, hhash⟩ := hfresh rfl
    obtain ⟨binding, expires, old, hbinding, -, -, hwithin, hold, hcandidate, hchanges⟩ :=
      applyIssue_ok happly
    have hhome : binding.tenant = tenant := hpruned.homed hbinding
    have hbound := hpruned.bound hbinding
    rw [hhome] at hbound
    have hgranted : Granted world.grants tenant
        (input.credential host generated apply tenant expires).grant :=
      hbound.le (CredentialCreate.grant_le_binding hwithin hhome)
    rw [hcandidate, hchanges]
    rcases predecessor_ok hold with ⟨-, rfl⟩ | ⟨name, old, -, rfl, hfound, -⟩
    · exact (hpruned.issue hid hhash fun _ => hgranted).frame rfl rfl rfl hsub
    · -- The predecessor is stored under its name, and so what is new is new after it too.
      have hkept : world.stored[old.id]? = some old := by
        rw [hpruned.keyed.named hfound]
        exact hpruned.kept hfound
      have hother : ¬ old.id = generated.credential := fun hsame => by
        rw [hsame, hid] at hkept
        cases hkept
      refine ((hpruned.revoke old generated.rotated apply).issue ?_
        (fun {key value} hvalue => ?_) fun _ => hgranted).frame rfl rfl rfl hsub
      · rw [TreeReads.getElem?_insert]
        exact (if_neg hother).trans hid
      · rw [TreeReads.getElem?_insert] at hvalue
        split at hvalue
        · rw [← Option.some.inj hvalue]
          show old.keyHash ≠ host.hashKey generated.secret
          exact hhash hkept
        · exact hhash hvalue

theorem World.Reachable.delegated (h : World.Reachable host world) : world.Delegated := by
  induction h with
  | empty hempty => exact World.Delegated.of_empty hempty
  | @step world request _ hfresh ih =>
    unfold World.step
    split
    · next hexecute => exact ih.execute hfresh hexecute
    · exact ih

/-! ## Rotation -/

/-- **A credential takes the place of another**, which is revoked. -/
structure Rotated (world next : World) (name successor : CredentialId) (old new : Credential) :
    Prop where
  predecessor : world.state.credentials[name]? = some old
  gone : next.state.credentials[name]? = none
  revoked : ∃ revision, next.stored[name]? = some (old.revoke revision)
  successor : next.state.credentials[successor]? = some new
  tenant : new.tenant = old.tenant
  within : new.grant ≤ old.grant

theorem rotated_of_executed (h : world.Delegated) (hfresh : request.Fresh host world)
    (hexecute : world.execute host request = .ok (next, applied)) {input : CredentialCreate}
    (hcommand : request.command = .issue tenant input) {name : CredentialId}
    (hname : input.rotateCredentialId = some name) :
    ∃ old new, Rotated world next name request.generated.credential old new := by
  obtain ⟨principal, prepared, candidate, -, -, happly, hnext⟩ := execute_ok hexecute
  obtain ⟨hid, -⟩ := hfresh (by rw [hcommand]; rfl)
  rw [hcommand] at happly
  obtain ⟨binding, expires, old, -, -, hlive, -, hold, hcandidate, hchanges⟩ := applyIssue_ok happly
  rcases predecessor_ok hold with ⟨hnone, -⟩ | ⟨_, old, hsome, rfl, hfound, hwithin⟩
  · exact nomatch hname.symm.trans hnone
  obtain rfl := Option.some.inj (hname.symm.trans hsome)
  have hthere : world.state.credentials[name]? = some old :=
    (TreeReads.getElem?_filter_eq_some.mp hfound).1
  have holdName : old.id = name := h.keyed.named hthere
  have hother : ¬ request.generated.credential = name := fun hsame => by
    have hkept := h.kept hthere
    rw [← hsame, hid] at hkept
    cases hkept
  obtain ⟨hhome, hle⟩ := CredentialCreate.grant_le_predecessor hwithin
  refine ⟨old, input.credential host request.generated request.apply tenant expires,
    hthere, ?_, ⟨request.generated.rotated, ?_⟩, ?_, hhome.symm, hle⟩
  · rw [hnext]
    show candidate.credentials[name]? = none
    rw [hcandidate, applyCredential_credentials]
    refine (if_neg hother).trans ?_
    show (applyCredential (world.state.prune request.read) (old.revoke request.generated.rotated)
      request.apply).credentials[name]? = none
    rw [applyCredential_credentials]
    exact (if_pos holdName).trans (if_neg fun hput => nomatch hput.1)
  · rw [hnext, hchanges]
    show ((world.stored.insert old.id (old.revoke request.generated.rotated)).insert
      request.generated.credential _)[name]? = _
    rw [TreeReads.getElem?_insert, if_neg hother, TreeReads.getElem?_insert, if_pos holdName]
  · rw [hnext]
    show candidate.credentials[request.generated.credential]? = _
    rw [hcandidate, applyCredential_credentials]
    exact (if_pos rfl).trans (if_pos ⟨rfl, hlive⟩)

/-! ## What a credential caller is authorized for -/

/-- The resources that a request for a scope is about: those it names and those it has. -/
def asked (scope : GrantScope) (tenant : TenantId) : Set ResourceKey :=
  {key | key ∈ scope.names} ∪ keysOf scope tenant

variable {key : ResourceKey}

theorem covers_of_asked {narrow broad : GrantScope} (h : scopeSubset narrow broad tenant = true)
    (hkey : key ∈ asked narrow tenant) :
    coversKey broad tenant key = true := by
  rcases hkey with hname | hcovers
  · exact covers_of_names h hname
  · exact keysOf_subset h hcovers

variable {scope : GrantScope}

theorem hasPools_of_asked (hkey : key ∈ asked scope tenant)
    (hpool : key.ownerKind = .operatorPool) :
    hasPools scope = true := by
  rcases hkey with hname | hcovers
  · cases scope with
    | tenant pools =>
      cases pools with
      | nil => exact absurd hname List.not_mem_nil
      | cons => rfl
    | resources keys => exact List.any_eq_true.mpr ⟨key, hname, decide_eq_true hpool⟩
  · exact hasPools_of_covers hcovers hpool

theorem names_of_covers (h : coversKey scope tenant key = true)
    (hpool : key.ownerKind = .operatorPool) :
    key ∈ scope.names := by
  cases scope with
  | tenant pools =>
    rcases (coversKey_tenant.mp h).2 with htenant | hmem
    · exact nomatch hpool.symm.trans htenant
    · exact hmem
  | resources keys => exact (coversKey_resources.mp h).2

/-- **What a credential caller may be authorized for**: its own tenant's resources, and
pools that an installation caller has named for the tenant. -/
structure Confined (world : World) (id : CredentialId) (tenant : TenantId) (key : ResourceKey) :
    Prop where
  caller : ∃ credential : Credential, world.state.credentials[id]? = some credential
    ∧ credential.tenant = tenant
  own : key.ownerKind = .tenant → key.ownerId = tenant
  pool : key.ownerKind = .operatorPool → ∃ binding ∈ world.grants, binding.tenant = tenant
    ∧ binding.byInstallation = true ∧ key ∈ binding.scope.names

theorem confined_of_authorized (h : world.Delegated) {permission : Permission}
    (hauthorize : world.state.authorize (.credential id) tenant permission scope now = .ok ())
    (hkey : key ∈ asked scope tenant) : Confined world id tenant key := by
  obtain ⟨effective, hlive, -, hcovers⟩ := authorize_credential hauthorize
  unfold Effective.covers at hcovers
  simp only [Bool.and_eq_true, Bool.or_eq_true, Bool.not_eq_true', hlive.home] at hcovers
  obtain ⟨⟨-, hbinding⟩, hpools⟩ := hcovers
  have hcovered := covers_of_asked hbinding hkey
  obtain ⟨name, -, hfound⟩ := hlive.binding
  refine ⟨⟨effective.credential, hlive.credential, hlive.home⟩, fun hown => ?_, fun hpool => ?_⟩
  · by_contra hforeign
    exact not_foreign_of_covers hcovered ⟨hown, hforeign⟩
  · have hclass : effective.binding.byInstallation = true := hpools.resolve_left fun hno =>
      nomatch hno.symm.trans (hasPools_of_asked hkey hpool)
    exact ⟨effective.binding, h.managed hfound hclass, h.homed hfound, hclass,
      names_of_covers hcovered hpool⟩

/-! ## All runs -/

structure Executed (world next : World) (request : Request) (applied : Applied) : Prop where
  /-- What a credential caller writes is within its authority at that moment. -/
  within : ∀ {id change tenant authority}, request.caller = .credential id →
    change ∈ applied.changes → change.authority = some (tenant, authority) →
      ∃ effective, world.state.effective request.caller tenant request.apply = .ok effective
        ∧ authority ≤ effective.grant
  /-- A rotated credential is within its predecessor, which is revoked. -/
  rotated : ∀ {tenant input name}, request.command = .issue tenant input →
    input.rotateCredentialId = some name →
      ∃ old new, Rotated world next name request.generated.credential old new

/-- **No command escalates.** In every world that commands reach, credentials and their
hashes are in bijection, none of them is revoked, and all authority lies within what an
installation caller has written for the same tenant. A credential caller is confined to
its tenant, and what it writes to its own authority. -/
theorem World.Reachable.noEscalation (h : World.Reachable host world) :
    world.Delegated
      ∧ (∀ id tenant permission scope now,
          world.state.authorize (.credential id) tenant permission scope now = .ok () →
            ∀ key ∈ asked scope tenant, Confined world id tenant key)
      ∧ ∀ request next applied, request.Fresh host world →
          world.execute host request = .ok (next, applied) →
            Executed world next request applied := by
  have hdelegated := h.delegated
  refine ⟨hdelegated, fun id tenant permission scope now hauthorize key hkey =>
    confined_of_authorized hdelegated hauthorize hkey,
    fun request next applied hfresh hexecute => ⟨fun hcaller hchange hauthority => ?_,
      fun hcommand hname => rotated_of_executed hdelegated hfresh hexecute hcommand hname⟩⟩
  obtain ⟨principal, prepared, candidate, hprepare, hcurrent, happly, -⟩ := execute_ok hexecute
  rw [hcaller] at hprepare hcurrent happly
  obtain ⟨effective, hlive, hle⟩ := written_of_applied hprepare happly hchange hauthority
  -- The authority when the command is made is of the records that preparation has found.
  obtain ⟨owner, other, hother⟩ := live_of_currentAuthority hcurrent
  obtain ⟨rfl, rfl⟩ := hlive.unique hother
  refine ⟨effective, ?_, hle⟩
  rw [hcaller]
  exact effective_eq_ok.mpr hother.of_prune

/-! ## A run -/

theorem Request.fresh_of_toList (hid : world.stored[request.generated.credential]? = none)
    (hhash : ∀ e ∈ world.stored.toList, e.2.keyHash ≠ host.hashKey request.generated.secret) :
    request.Fresh host world :=
  fun _ => ⟨hid, fun {id credential} hfound =>
    hhash (id, credential) (Std.ExtTreeMap.mem_toList_iff_getElem?_eq_some.mpr hfound)⟩

namespace Delegating

def tenantId : TenantId := ⟨"acme", by decide⟩

def admin : PrincipalId := ⟨"principal.admin", by decide⟩

def viewer : PrincipalId := ⟨"principal.viewer", by decide⟩

def operatorId : PrincipalId := ⟨"operator.local", by decide⟩

def revision : RevisionId := ⟨"revision.1", by decide⟩

def adminBinding : BindingId := ⟨"binding.admin", by decide⟩

def viewerBinding : BindingId := ⟨"binding.viewer", by decide⟩

def first : CredentialId := ⟨"credential.1", by decide⟩

def second : CredentialId := ⟨"credential.2", by decide⟩

def clock : Host where
  parse wire :=
    if wire = "1970-01-01T00:01:00Z" then some 60
    else if wire = "1970-01-01T01:00:00Z" then some 3600
    else none
  hashKey secret := "sha256:" ++ secret

/-- A tenant with two principals. -/
def start : World where
  state := {
    tenants := (∅ : IdMap Tenant).insert tenantId ⟨tenantId, revision, .active, 0⟩
    principals := ((∅ : IdMap Principal).insert admin
      ⟨admin, revision, "issuer", "admin", 0⟩).insert
      viewer ⟨viewer, revision, "issuer", "viewer", 0⟩ }

def ask (caller : Caller) (command : Command) (now : Instant) (credential : CredentialId)
    (secret : String) : Request :=
  ⟨caller, command, now, now, now, ⟨revision, revision, credential, secret⟩⟩

def issue (revision : ℕ) (permissions : List Permission) (rotate : Option CredentialId)
    (expiresAt : String) : Command :=
  .issue tenantId ⟨revision, admin, permissions, .tenant [], expiresAt, rotate, adminBinding⟩

/-- The installation binds an administrator and issues it a credential, with which it
binds a viewer and rotates the credential. -/
def grant : Request :=
  ask (.installation operatorId)
    (.binding tenantId adminBinding ⟨none, admin, .tenantAdmin, .tenant [], "1970-01-01T01:00:00Z",
      none⟩) 1 first ""

def issueFirst : Request :=
  ask (.installation operatorId)
    (issue 1 TenantRole.tenantAdmin.permissions none "1970-01-01T01:00:00Z") 2 first "one"

def delegate : Request :=
  ask (.credential first)
    (.binding tenantId viewerBinding ⟨none, viewer, .viewer, .tenant [], "1970-01-01T00:01:00Z",
      none⟩) 3 first ""

def rotate : Request :=
  ask (.credential first) (issue 3 [.resourceRead] (some first) "1970-01-01T00:01:00Z") 4 second
    "two"

def reached : World := start.run clock [grant, issueFirst, delegate, rotate]

theorem reached_noEscalation :
    reached.Delegated ∧ reached.grants.length = 1 ∧ reached.state.bindings.size = 2
      ∧ reached.state.credentials.keys = [second] := by
  have hstart : start.Empty := ⟨rfl, rfl, rfl, rfl, rfl⟩
  have hgranted : World.Reachable clock (start.run clock [grant]) :=
    .step grant (.empty hstart) fun hissues => nomatch hissues
  have hissued : World.Reachable clock (start.run clock [grant, issueFirst]) :=
    .step issueFirst hgranted (Request.fresh_of_toList (by decide +kernel) (by decide +kernel))
  have hdelegated : World.Reachable clock (start.run clock [grant, issueFirst, delegate]) :=
    .step delegate hissued fun hissues => nomatch hissues
  have hrotated : World.Reachable clock reached :=
    .step rotate hdelegated (Request.fresh_of_toList (by decide +kernel) (by decide +kernel))
  exact ⟨(World.Reachable.noEscalation hrotated).1, by decide +kernel⟩

end Delegating

end BitRouter.Authority
