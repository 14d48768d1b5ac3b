import BitRouter.Data.Result
import BitRouter.Data.StrMap
import BitRouter.Tenancy.Identity
import Mathlib.Data.Int.Notation

/-!
# Authority

The records of `tenancy/model.rs` and the grants of `tenancy/authority.rs`: what a
caller may do is the intersection of a frozen credential with a live binding. An
instant is an integer, and the parser of timestamps is a parameter.
-/

namespace BitRouter.Authority

open BitRouter.Tenancy (Identifier TenantId PrincipalId RevisionId CredentialId)

abbrev BindingId := Identifier

abbrev OwnerId := Identifier

abbrev ResourceId := Identifier

abbrev Instant := ℤ

/-! ## Grants -/

/-- Who a resource belongs to. -/
inductive OwnerKind where
  | tenant | operatorPool
deriving DecidableEq, Repr

/-- What a resource is. -/
inductive ResourceKind where
  | route | policy | credential | checkpoint | configuration | execution
deriving DecidableEq, Repr

/-- A resource, by its owner. -/
structure ResourceKey where
  ownerKind : OwnerKind
  ownerId : OwnerId
  resourceKind : ResourceKind
  resourceId : ResourceId
deriving DecidableEq

/-- What a grant covers. -/
inductive GrantScope where
  | tenant (operatorPools : List ResourceKey)
  | resources (resources : List ResourceKey)
deriving DecidableEq

/-- What a credential may do. -/
inductive Permission where
  | resourceRead | resourceDraft | executionSubmit | evaluationSubmit | policyActivate
  | credentialUse | credentialManage | bindingManage | credentialIssue | receiptRead
deriving DecidableEq, Repr

/-- What a binding may do. -/
inductive TenantRole where
  | viewer | editor | tenantOperator | tenantAdmin
deriving DecidableEq, Repr

/-- The permissions of a role. -/
def TenantRole.permissions : TenantRole → List Permission
  | viewer => [.resourceRead, .receiptRead]
  | editor => [.resourceRead, .receiptRead, .resourceDraft, .executionSubmit, .credentialUse,
      .evaluationSubmit]
  | tenantOperator => [.resourceRead, .receiptRead, .policyActivate, .credentialManage]
  | tenantAdmin => [.resourceRead, .receiptRead, .resourceDraft, .executionSubmit, .credentialUse,
      .evaluationSubmit, .policyActivate, .credentialManage, .bindingManage, .credentialIssue]

/-- The state of a tenant. -/
inductive TenantState where
  | active | suspended | deleting
deriving DecidableEq, Repr

/-- The state of a credential. -/
inductive CredentialState where
  | active | revoked | expired
deriving DecidableEq, Repr

/-- Why a command is refused. -/
inductive ErrorCode where
  | forbidden | unauthorized | notFound | tenantInactive | invalidRequest | revisionConflict
deriving DecidableEq, Repr

/-! ## Records -/

/-- Who put a binding. -/
inductive AuthorityClass where
  | installation | tenant
deriving DecidableEq, Repr

/-- A tenant, with its revision. -/
structure Tenant where
  id : TenantId
  revision : RevisionId
  state : TenantState
  createdAt : Instant
deriving DecidableEq

/-- A subject known to an issuer. -/
structure Principal where
  id : PrincipalId
  revision : RevisionId
  issuer : String
  subject : String
  createdAt : Instant
deriving DecidableEq

/-- A timestamp, and its instant. -/
structure Deadline where
  wire : String
  instant : Instant
deriving DecidableEq

/-- Who manages a binding. -/
structure ManagedBy where
  principal : PrincipalId
  authorityClass : AuthorityClass
deriving DecidableEq

/-- A principal's role in a tenant. -/
structure Binding where
  tenant : TenantId
  id : BindingId
  principal : PrincipalId
  revision : RevisionId
  role : TenantRole
  scope : GrantScope
  expires : Deadline
  managedBy : Option ManagedBy
deriving DecidableEq

/-- What was issued under a binding. -/
structure Credential where
  id : CredentialId
  tenant : TenantId
  principal : PrincipalId
  binding : Option BindingId
  revision : RevisionId
  keyHash : String
  state : CredentialState
  auditReader : Bool
  permissions : List Permission
  scope : GrantScope
  expires : Deadline
  createdAt : Instant
deriving DecidableEq

/-- Names of bindings, ordered by their tenants first. -/
def cmpBinding : TenantId × BindingId → TenantId × BindingId → Ordering :=
  compareLex (compareOn Prod.fst) (compareOn Prod.snd)

instance transBinding : Std.TransCmp cmpBinding :=
  inferInstanceAs (Std.TransCmp (compareLex (compareOn Prod.fst) (compareOn Prod.snd)))

instance lawfulBinding : Std.LawfulEqCmp cmpBinding where
  eq_of_compare {a b} h := by
    have hthen : (compare a.1 b.1).then (compare a.2 b.2) = .eq := h
    rw [Ordering.then_eq_eq] at hthen
    exact Prod.ext (Std.compare_eq_iff_eq.mp hthen.1) (Std.compare_eq_iff_eq.mp hthen.2)

/-- A map from identifiers, as in `BTreeMap`. -/
abbrev IdMap (α : Type) : Type := Std.ExtTreeMap Identifier α compare

abbrev BindingMap (α : Type) : Type := Std.ExtTreeMap (TenantId × BindingId) α cmpBinding

/-- **The authority facts.** Only credentials that are active and not expired are
here; the history of the others is in the store. -/
structure Snapshot where
  revision : ℕ := 0
  tenants : IdMap Tenant := ∅
  principals : IdMap Principal := ∅
  bindings : BindingMap Binding := ∅
  credentials : IdMap Credential := ∅
  credentialHashes : StrMap CredentialId := ∅

/-- Who issues a command, as authentication has found. -/
inductive Caller where
  | installation (principal : PrincipalId)
  | credential (id : CredentialId)
deriving DecidableEq

def Caller.isInstallation : Caller → Bool
  | installation _ => true
  | credential _ => false

/-- The authority to read the outcome of a command later. -/
inductive ReadContext where
  | installation
  | tenant (tenant : TenantId) (permission : Permission) (scopes : List GrantScope)
deriving DecidableEq

/-! ## Scopes -/

/-- Whether operator pools are named. -/
def hasPools : GrantScope → Bool
  | .tenant operatorPools => !operatorPools.isEmpty
  | .resources resources => resources.any (·.ownerKind = .operatorPool)

/-- Whether a resource is in scope. -/
def coversKey (scope : GrantScope) (tenant : TenantId) (key : ResourceKey) : Bool :=
  if key.ownerKind = .tenant ∧ key.ownerId ≠ tenant then false
  else
    match scope with
    | .tenant operatorPools => key.ownerKind = .tenant || operatorPools.contains key
    | .resources resources => resources.contains key

/-- Whether one scope is within another. -/
def scopeSubset (narrow broad : GrantScope) (tenant : TenantId) : Bool :=
  match narrow with
  | .tenant operatorPools =>
    (match broad with
      | .tenant _ => true
      | .resources _ => false)
      && operatorPools.all fun key => key.ownerKind = .operatorPool && coversKey broad tenant key
  | .resources resources =>
    !resources.isEmpty && resources.all fun key => coversKey broad tenant key

/-! ## Effective authority -/

/-- A credential and its binding. -/
structure Effective where
  credential : Credential
  binding : Binding
deriving DecidableEq

/-- Whether the operator put it. -/
def Binding.byInstallation (binding : Binding) : Bool :=
  binding.managedBy.any (·.authorityClass = .installation)

namespace Effective

/-- Credential and role both allow it. -/
def permits (effective : Effective) (permission : Permission) : Bool :=
  effective.credential.permissions.contains permission
    && effective.binding.role.permissions.contains permission

/-- Both scopes cover it. -/
def covers (effective : Effective) (scope : GrantScope) : Bool :=
  scopeSubset scope effective.credential.scope effective.credential.tenant
    && scopeSubset scope effective.binding.scope effective.credential.tenant
    && (!hasPools scope || effective.binding.byInstallation)

/-- It ends before both. -/
def allowsExpiry (effective : Effective) (expiry : Instant) : Bool :=
  expiry ≤ effective.credential.expires.instant && expiry ≤ effective.binding.expires.instant

end Effective

namespace Snapshot

/-- The caller's credential, in force. -/
def credential (state : Snapshot) (caller : Caller) (now : Instant) : Except ErrorCode Credential :=
  match caller with
  | .installation _ => .error .forbidden
  | .credential id =>
    orFail (state.credentials[id]?.filter fun credential =>
      credential.state = .active && now < credential.expires.instant) .unauthorized

/-- Who a caller is. -/
def principal (state : Snapshot) (caller : Caller) (now : Instant) : Except ErrorCode PrincipalId :=
  match caller with
  | .installation principal => .ok principal
  | .credential _ => (state.credential caller now).map Credential.principal

/-- **The effective authority of a caller**: its credential and its live binding. -/
def effective (state : Snapshot) (caller : Caller) (tenant : TenantId) (now : Instant) :
    Except ErrorCode Effective := do
  let credential ← state.credential caller now
  ensure (credential.tenant = tenant ∧ credential.auditReader = false) .forbidden
  ensure (state.tenants[tenant]?.map Tenant.state = some .active) .tenantInactive
  let binding ← orFail ((credential.binding.bind fun id => state.bindings[(tenant, id)]?).filter
    fun binding => binding.principal = credential.principal && now < binding.expires.instant)
    .forbidden
  return ⟨credential, binding⟩

/-- **Authorize a caller** for a permission on a scope. -/
def authorize (state : Snapshot) (caller : Caller) (tenant : TenantId) (permission : Permission)
    (scope : GrantScope) (now : Instant) : Except ErrorCode Unit :=
  if caller.isInstallation then .ok ()
  else do
    let effective ← state.effective caller tenant now
    ensure (effective.permits permission ∧ effective.covers scope) .forbidden

end Snapshot

end BitRouter.Authority
