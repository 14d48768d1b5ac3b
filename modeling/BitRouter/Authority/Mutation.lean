import BitRouter.Authority.Types
import BitRouter.Data.StrPrefix

/-!
# Mutations of authority

`tenancy/mutation.rs`: a command is authorized against the facts (`prepare`) and then
made on a private candidate (`apply`), which an error discards. The store keeps every
credential there ever was; what is generated is an argument.
-/

namespace BitRouter.Authority

open BitRouter.Tenancy (Identifier TenantId PrincipalId RevisionId CredentialId)
open StrPrefix (startsWith)

/-! ## Commands -/

/-- The binding to put. -/
structure BindingPut where
  expectedRevision : Option RevisionId
  principalId : PrincipalId
  role : TenantRole
  scope : GrantScope
  expiresAt : String
  expectedManagementOwner : Option PrincipalId
deriving DecidableEq

/-- The credential to issue. -/
structure CredentialCreate where
  expectedAuthorityRevision : ℕ
  principalId : PrincipalId
  permissions : List Permission
  scope : GrantScope
  expiresAt : String
  rotateCredentialId : Option CredentialId
  bindingId : BindingId
deriving DecidableEq

/-- The audit reader to issue. -/
structure AuditReaderCreate where
  expectedAuthorityRevision : ℕ
  principalId : PrincipalId
  expiresAt : String
deriving DecidableEq

/-- The commands of an administrator. -/
inductive Command where
  | tenant (id : TenantId) (expectedRevision : Option RevisionId) (state : TenantState)
  | principal (id : PrincipalId) (expectedRevision : Option RevisionId) (issuer subject : String)
  | binding (tenant : TenantId) (id : BindingId) (input : BindingPut)
  | issue (tenant : TenantId) (input : CredentialCreate)
  | auditReader (tenant : TenantId) (input : AuditReaderCreate)
  | detach (tenant : TenantId) (id : BindingId) (expectedRevision : RevisionId)
  | revoke (tenant : TenantId) (id : CredentialId) (expectedRevision : RevisionId)
deriving DecidableEq

/-- A record written. -/
inductive Change where
  | tenant (tenant : Tenant)
  | principal (principal : Principal)
  | binding (binding : Binding)
  | credential (credential : Credential)
deriving DecidableEq

/-- What was issued, and to whom. -/
structure Issued where
  credential : CredentialId
  principal : PrincipalId
  tenant : TenantId
  authorityRevision : ℕ
  secret : String
  expiresAt : String
  credentialRevision : RevisionId
deriving DecidableEq

/-- What was read before the lock. -/
structure Prepared where
  context : ReadContext
  credential : Option Credential := none
deriving DecidableEq

/-- The changes a command made. -/
structure Applied where
  changes : List Change
  resource : Identifier
  revision : RevisionId
  issued : Option Issued := none
deriving DecidableEq

/-- What is generated for a command. -/
structure Generated where
  revision : RevisionId
  rotated : RevisionId
  credential : CredentialId
  secret : String
deriving DecidableEq

/-- The parser of timestamps, and the hash of secrets. -/
structure Host where
  parse : String → Option Instant
  hashKey : String → String

def Host.deadline (host : Host) (wire : String) : Except ErrorCode Deadline :=
  orFail ((host.parse wire).map (Deadline.mk wire)) .invalidRequest

/-! ## Preparation -/

/-- Only the operator goes on. -/
def operator (caller : Caller) : Except ErrorCode Unit := ensure caller.isInstallation .forbidden

/-- The tenant's own resources. -/
def tenantScope : GrantScope := .tenant []

/-- What a command is authorised by. -/
def scopedContext (caller : Caller) (tenant : TenantId) (permission : Permission)
    (scope : GrantScope) : ReadContext :=
  if caller.isInstallation then .installation else .tenant tenant permission [scope]

/-- The context also reads the scope that is replaced. -/
def ReadContext.replacing (context : ReadContext) (old scope : GrantScope) : ReadContext :=
  match context with
  | .installation => .installation
  | .tenant owner permission scopes =>
    .tenant owner permission (if old ≠ scope then scopes ++ [old] else scopes)

/-- A caller grants no more than it has. -/
def withinCaller (host : Host) (state : Snapshot) (caller : Caller) (tenant : TenantId)
    (permissions : List Permission) (expiresAt : String) (now : Instant) : Except ErrorCode Unit :=
  if caller.isInstallation then .ok ()
  else do
    let effective ← state.effective caller tenant now
    let expiry ← host.deadline expiresAt
    ensure (permissions.all effective.permits ∧ effective.allowsExpiry expiry.instant) .forbidden

/-- **Authorize a command.** -/
def prepare (host : Host) (stored : IdMap Credential) (state : Snapshot) (caller : Caller)
    (command : Command) (now : Instant) : Except ErrorCode Prepared :=
  match command with
  | .tenant _ _ _ | .principal _ _ _ _ | .auditReader _ _ | .detach _ _ _ => do
    operator caller
    return ⟨.installation, none⟩
  | .binding tenant id input => do
    state.authorize caller tenant .bindingManage input.scope now
    let old := state.bindings[(tenant, id)]?
    old.elim (.ok ()) fun old => state.authorize caller tenant .bindingManage old.scope now
    if hasPools input.scope then operator caller
    withinCaller host state caller tenant input.role.permissions input.expiresAt now
    let context := scopedContext caller tenant .bindingManage input.scope
    return ⟨old.elim context fun old => context.replacing old.scope input.scope, none⟩
  | .issue tenant input => do
    state.authorize caller tenant .credentialIssue input.scope now
    withinCaller host state caller tenant input.permissions input.expiresAt now
    let context := scopedContext caller tenant .credentialManage input.scope
    match input.rotateCredentialId with
    | none => return ⟨context, none⟩
    | some id =>
      let old ← orFail (state.credentials[id]?.filter fun credential =>
        credential.tenant = tenant && credential.state = .active) .notFound
      state.authorize caller tenant .credentialManage old.scope now
      return ⟨context.replacing old.scope input.scope, none⟩
  | .revoke tenant id _ => do
    let target ← orFail (stored[id]?.filter (·.tenant = tenant)) .notFound
    if target.auditReader then operator caller
    state.authorize caller tenant .credentialManage target.scope now
    return ⟨scopedContext caller tenant .credentialManage target.scope, stored[id]?⟩

/-! ## Application -/

/-- The tenant is active. -/
def active (state : Snapshot) (tenant : TenantId) : Except ErrorCode Unit := do
  let tenant ← orFail state.tenants[tenant]? .notFound
  ensure (tenant.state = .active) .tenantInactive

/-- The revision is the expected one. -/
def cas (current expected : Option RevisionId) : Except ErrorCode Unit :=
  ensure (current = expected) .revisionConflict

/-- A credential takes the place of its last version, if it is still active. -/
def applyCredential (state : Snapshot) (credential : Credential) (now : Instant) : Snapshot :=
  let state := state.credentials[credential.id]?.elim state fun old => { state with
    credentials := state.credentials.erase credential.id
    credentialHashes := state.credentialHashes.erase old.keyHash }
  if credential.state = .active ∧ now < credential.expires.instant then { state with
    credentialHashes := state.credentialHashes.insert credential.keyHash credential.id
    credentials := state.credentials.insert credential.id credential }
  else state

/-- Writes a tenant. -/
def applyTenant (generated : Generated) (now : Instant) (id : TenantId)
    (expectedRevision : Option RevisionId) (tenantState : TenantState) (state : Snapshot) :
    Except ErrorCode (Snapshot × Applied) := do
  let old := state.tenants[id]?
  cas (old.map Tenant.revision) expectedRevision
  let tenant : Tenant := ⟨id, generated.revision, tenantState, old.elim now Tenant.createdAt⟩
  return ({ state with tenants := state.tenants.insert id tenant },
    { changes := [.tenant tenant], resource := id, revision := generated.revision })

/-- Writes a principal. -/
def applyPrincipal (generated : Generated) (now : Instant) (id : PrincipalId)
    (expectedRevision : Option RevisionId) (issuer subject : String) (state : Snapshot) :
    Except ErrorCode (Snapshot × Applied) := do
  ensure (startsWith id.text "operator." = false) .invalidRequest
  let old := state.principals[id]?
  cas (old.map Principal.revision) expectedRevision
  ensure (old.all (fun old => old.issuer = issuer && old.subject = subject)
    ∧ state.principals.toList.all fun e =>
      e.2.id = id || e.2.issuer ≠ issuer || e.2.subject ≠ subject) .revisionConflict
  let value : Principal :=
    ⟨id, generated.revision, issuer, subject, old.elim now Principal.createdAt⟩
  return ({ state with principals := state.principals.insert id value },
    { changes := [.principal value], resource := id, revision := generated.revision })

def Caller.authorityClass (caller : Caller) : AuthorityClass :=
  if caller.isInstallation then .installation else .tenant

/-- Who manages a binding that is written. Only its manager writes it again, and a
binding that is detached only the installation. -/
def managedBy (caller : Caller) (principal : PrincipalId) (expected : Option PrincipalId)
    (old : Option Binding) : Except ErrorCode (Option ManagedBy) :=
  match old with
  | none => .ok (some ⟨principal, caller.authorityClass⟩)
  | some old => do
    ensure (old.managedBy.map ManagedBy.principal = expected) .revisionConflict
    match old.managedBy with
    | some owner =>
      if owner.principal = principal ∧ owner.authorityClass = caller.authorityClass then
        return some owner
      else .error .forbidden
    | none => if caller.authorityClass = .installation then return none else .error .forbidden

/-- Whether another tenant owns it. -/
def foreign (tenant : TenantId) (key : ResourceKey) : Bool :=
  key.ownerKind = .tenant && key.ownerId ≠ tenant

/-- No named resource is of another tenant. -/
def noneForeign (tenant : TenantId) : GrantScope → Bool
  | .resources resources => resources.all fun key => !foreign tenant key
  | .tenant _ => true

/-- Writes a binding. -/
def applyBinding (host : Host) (generated : Generated) (now : Instant) (caller : Caller)
    (principal : PrincipalId) (tenant : TenantId) (id : BindingId) (input : BindingPut)
    (state : Snapshot) : Except ErrorCode (Snapshot × Applied) := do
  active state tenant
  ensure (input.principalId ∈ state.principals) .notFound
  let expires ← host.deadline input.expiresAt
  ensure (now < expires.instant) .invalidRequest
  ensure (noneForeign tenant input.scope) .forbidden
  let old := state.bindings[(tenant, id)]?
  cas (old.map Binding.revision) input.expectedRevision
  let managedBy ← managedBy caller principal input.expectedManagementOwner old
  let binding : Binding := {
    tenant := tenant, id := id, principal := input.principalId, revision := generated.revision
    role := input.role, scope := input.scope, expires := expires, managedBy := managedBy }
  return ({ state with bindings := state.bindings.insert (tenant, id) binding },
    { changes := [.binding binding], resource := id, revision := generated.revision })

/-- Takes a binding from the operator. -/
def applyDetach (generated : Generated) (tenant : TenantId) (id : BindingId)
    (expectedRevision : RevisionId) (state : Snapshot) : Except ErrorCode (Snapshot × Applied) := do
  let old ← orFail state.bindings[(tenant, id)]? .notFound
  cas (some old.revision) (some expectedRevision)
  let binding := { old with managedBy := none, revision := generated.revision }
  return ({ state with bindings := state.bindings.insert (tenant, id) binding },
    { changes := [.binding binding], resource := id, revision := generated.revision })

/-- Revokes a credential. -/
def applyRevoke (generated : Generated) (now : Instant) (prepared : Prepared) (id : CredentialId)
    (expectedRevision : RevisionId) (state : Snapshot) : Except ErrorCode (Snapshot × Applied) := do
  let credential ← orFail prepared.credential .notFound
  cas (some credential.revision) (some expectedRevision)
  if credential.state = .revoked then
    return (state, { changes := [], resource := id, revision := credential.revision })
  else
    let credential := { credential with state := .revoked, revision := generated.revision }
    return (applyCredential state credential now,
      { changes := [.credential credential], resource := id, revision := generated.revision })

/-- **A credential is issued**, with a secret that is not kept. -/
def issue (host : Host) (generated : Generated) (now : Instant) (state : Snapshot)
    (tenant : TenantId) (principal : PrincipalId) (binding : Option BindingId) (auditReader : Bool)
    (permissions : List Permission) (scope : GrantScope) (expires : Deadline) :
    Credential × Issued :=
  ({  id := generated.credential, tenant := tenant, principal := principal, binding := binding
      revision := generated.revision, keyHash := host.hashKey generated.secret, state := .active
      auditReader := auditReader, permissions := permissions, scope := scope, expires := expires
      createdAt := now },
    { credential := generated.credential, principal := principal, tenant := tenant
      authorityRevision := state.revision, secret := generated.secret, expiresAt := expires.wire
      credentialRevision := generated.revision })

/-- No more than its binding. -/
def withinBinding (tenant : TenantId) (input : CredentialCreate) (expires : Deadline)
    (binding : Binding) : Bool :=
  binding.principal = input.principalId && expires.instant ≤ binding.expires.instant
    && input.permissions.all binding.role.permissions.contains
    && scopeSubset input.scope binding.scope tenant
    && (!hasPools input.scope || binding.byInstallation)

/-- No more than what it replaces. -/
def withinPredecessor (tenant : TenantId) (input : CredentialCreate) (expires : Deadline)
    (predecessor : Credential) : Bool :=
  predecessor.tenant = tenant && predecessor.principal = input.principalId
    && predecessor.binding = some input.bindingId && !predecessor.auditReader
    && scopeSubset input.scope predecessor.scope tenant
    && input.permissions.all predecessor.permissions.contains
    && expires.instant ≤ predecessor.expires.instant

/-- The credential that is replaced. -/
def predecessor (tenant : TenantId) (input : CredentialCreate) (expires : Deadline)
    (now : Instant) (state : Snapshot) : Except ErrorCode (Option Credential) :=
  match input.rotateCredentialId with
  | none => .ok none
  | some id => do
    let predecessor ← orFail (state.credentials[id]?.filter fun credential =>
      credential.state = .active && now < credential.expires.instant) .notFound
    ensure (withinPredecessor tenant input expires predecessor) .forbidden
    return some predecessor

/-- Issues a credential. -/
def applyIssue (host : Host) (generated : Generated) (now : Instant) (tenant : TenantId)
    (input : CredentialCreate) (state : Snapshot) : Except ErrorCode (Snapshot × Applied) := do
  active state tenant
  ensure (input.expectedAuthorityRevision = state.revision) .revisionConflict
  let binding ← orFail state.bindings[(tenant, input.bindingId)]? .notFound
  let expires ← host.deadline input.expiresAt
  ensure (now < expires.instant) .invalidRequest
  ensure (withinBinding tenant input expires binding) .forbidden
  let old ← predecessor tenant input expires now state
  let (credential, response) := issue host generated now state tenant input.principalId
    (some input.bindingId) false input.permissions input.scope expires
  let revoked := old.map fun old => { old with state := .revoked, revision := generated.rotated }
  let state := revoked.elim state fun revoked => applyCredential state revoked now
  return (applyCredential state credential now,
    { changes := revoked.toList.map .credential ++ [.credential credential]
      resource := credential.id, revision := generated.revision, issued := some response })

/-- Issues an audit reader. -/
def applyAuditReader (host : Host) (generated : Generated) (now : Instant) (tenant : TenantId)
    (input : AuditReaderCreate) (state : Snapshot) : Except ErrorCode (Snapshot × Applied) := do
  ensure (input.expectedAuthorityRevision = state.revision) .revisionConflict
  ensure (tenant ∈ state.tenants ∧ input.principalId ∈ state.principals) .notFound
  let expires ← host.deadline input.expiresAt
  ensure (now < expires.instant) .invalidRequest
  let (credential, response) := issue host generated now state tenant input.principalId none true
    [] tenantScope expires
  return (applyCredential state credential now,
    { changes := [.credential credential], resource := credential.id
      revision := generated.revision, issued := some response })

/-- The caller still has authority. -/
def currentAuthority (state : Snapshot) (caller : Caller) (now : Instant) : Except ErrorCode Unit :=
  if caller.isInstallation then .ok ()
  else do
    let credential ← state.credential caller now
    let _ ← state.effective caller credential.tenant now
    return ()

/-- A command under the lock. -/
def applyCommand (host : Host) (generated : Generated) (state : Snapshot) (caller : Caller)
    (principal : PrincipalId) (prepared : Prepared) (now : Instant) :
    Command → Except ErrorCode (Snapshot × Applied)
  | .tenant id expected tenantState => applyTenant generated now id expected tenantState state
  | .principal id expected issuer subject =>
    applyPrincipal generated now id expected issuer subject state
  | .binding tenant id input =>
    applyBinding host generated now caller principal tenant id input state
  | .detach tenant id expected => applyDetach generated tenant id expected state
  | .revoke _ id expected => applyRevoke generated now prepared id expected state
  | .issue tenant input => applyIssue host generated now tenant input state
  | .auditReader tenant input => applyAuditReader host generated now tenant input state

/-- **Make a command** on a candidate. -/
def apply (host : Host) (generated : Generated) (state : Snapshot) (caller : Caller)
    (principal : PrincipalId) (command : Command) (prepared : Prepared) (now : Instant) :
    Except ErrorCode (Snapshot × Applied) := do
  currentAuthority state caller now
  applyCommand host generated state caller principal prepared now command

/-! ## The owner of the facts -/

/-- A command with its caller, the times it is read, prepared and applied at, and what
is generated for it. -/
structure Request where
  caller : Caller
  command : Command
  read : Instant
  prepare : Instant
  apply : Instant
  generated : Generated
deriving DecidableEq

/-- **The facts, the credentials that are stored, and the bindings that an
installation caller has written.** The last is history: no command reads it. -/
structure World where
  state : Snapshot
  stored : IdMap Credential := ∅
  grants : List Binding := []

/-- Expired credentials are left out. -/
def Snapshot.prune (state : Snapshot) (now : Instant) : Snapshot :=
  let credentials := state.credentials.filter fun _ credential => now < credential.expires.instant
  { state with
    credentials := credentials
    credentialHashes := state.credentialHashes.filter fun _ id => id ∈ credentials }

def Change.store (stored : IdMap Credential) : Change → IdMap Credential
  | .credential value => stored.insert value.id value
  | _ => stored

/-- The bindings among changes. -/
def Change.binding? : Change → Option Binding
  | .binding value => some value
  | _ => none

/-- The bindings a request granted. -/
def Request.granted (request : Request) (applied : Applied) : List Binding :=
  match request.command with
  | .binding _ _ _ =>
    if request.caller.isInstallation then applied.changes.filterMap Change.binding? else []
  | _ => []

/-- **Execute a command** on a candidate of the facts. -/
def World.execute (host : Host) (world : World) (request : Request) :
    Except ErrorCode (World × Applied) := do
  let principal ← world.state.principal request.caller request.read
  let candidate := world.state.prune request.read
  let prepared ← prepare host world.stored candidate request.caller request.command request.prepare
  let (candidate, applied) ← apply host request.generated candidate request.caller principal
    request.command prepared request.apply
  return ({  state := { candidate with revision := world.state.revision + 1 }
             stored := applied.changes.foldl Change.store world.stored
             grants := world.grants ++ request.granted applied }, applied)

/-- A command that fails changes nothing. -/
def World.step (host : Host) (world : World) (request : Request) : World :=
  match world.execute host request with
  | .ok (world, _) => world
  | .error _ => world

/-- The commands, in order. -/
def World.run (host : Host) (world : World) (requests : List Request) : World :=
  requests.foldl (World.step host) world

end BitRouter.Authority
