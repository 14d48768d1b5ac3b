import BitRouter.Authority.Commands

/-!
# Delegation

All authority comes from the installation. `World.Delegated` says so of the facts: each
binding and each credential lies within a binding that an installation caller has
written for the same tenant. A command keeps this because what a tenant caller writes
lies within its own authority, and that lies within its live binding. The order of
times plays no part.
-/

namespace BitRouter.Authority

open BitRouter.Tenancy (Identifier TenantId PrincipalId RevisionId CredentialId)

variable {host : Host} {world next : World} {state : Snapshot} {request : Request}
variable {applied : Applied} {prepared : Prepared} {stored : IdMap Credential}
variable {grants grants' : List Binding} {caller : Caller} {tenant : TenantId} {now : Instant}
variable {authority : Grant} {id : CredentialId}

/-! ## The invariant -/

/-- An authority within one of the bindings of a tenant. -/
def Granted (grants : List Binding) (tenant : TenantId) (authority : Grant) : Prop :=
  ∃ grant ∈ grants, grant.tenant = tenant ∧ authority ≤ grant.grant

/-- **The authority of the facts comes from the installation.** -/
structure World.Delegated (world : World) : Prop where
  keyed : Keyed world.state
  kept : ∀ {id : CredentialId} {credential : Credential},
    world.state.credentials[id]? = some credential → world.stored[id]? = some credential
  homed : ∀ {tenant : TenantId} {name : BindingId} {binding : Binding},
    world.state.bindings[(tenant, name)]? = some binding → binding.tenant = tenant
  bound : ∀ {name : TenantId × BindingId} {binding : Binding},
    world.state.bindings[name]? = some binding →
      Granted world.grants binding.tenant binding.grant
  managed : ∀ {name : TenantId × BindingId} {binding : Binding},
    world.state.bindings[name]? = some binding → binding.byInstallation = true →
      binding ∈ world.grants
  issued : ∀ {id : CredentialId} {credential : Credential},
    world.state.credentials[id]? = some credential → credential.auditReader = false →
      Granted world.grants credential.tenant credential.grant

structure World.Empty (world : World) : Prop where
  bindings : world.state.bindings = ∅
  credentials : world.state.credentials = ∅
  credentialHashes : world.state.credentialHashes = ∅
  stored : world.stored = ∅
  grants : world.grants = []

/-- A command that issues a credential. -/
def Command.issues : Command → Bool
  | .issue _ _ | .auditReader _ _ => true
  | _ => false

/-- What is generated for a credential is new: no credential that was ever stored has
its id, or the hash of its secret. -/
def Request.Fresh (host : Host) (world : World) (request : Request) : Prop :=
  request.command.issues = true → world.stored[request.generated.credential]? = none
    ∧ ∀ {id : CredentialId} {credential : Credential}, world.stored[id]? = some credential →
        credential.keyHash ≠ host.hashKey request.generated.secret

/-- **The worlds that commands reach.** -/
inductive World.Reachable (host : Host) : World → Prop
  | empty {world : World} : world.Empty → Reachable host world
  | step {world : World} (request : Request) : Reachable host world →
      request.Fresh host world → Reachable host (world.step host request)

theorem Granted.le (h : Granted grants tenant authority) {less : Grant} (hle : less ≤ authority) :
    Granted grants tenant less := by
  obtain ⟨grant, hmem, hhome, hgrant⟩ := h
  exact ⟨grant, hmem, hhome, hle.trans hgrant⟩

theorem Granted.mono (h : Granted grants tenant authority) (hsub : grants ⊆ grants') :
    Granted grants' tenant authority := by
  obtain ⟨grant, hmem, hhome, hgrant⟩ := h
  exact ⟨grant, hsub hmem, hhome, hgrant⟩

namespace World.Delegated

theorem granted (h : World.Delegated ⟨state, stored, grants⟩)
    {effective : Effective} (hlive : Live state id tenant now effective) :
    Granted grants tenant effective.grant := by
  obtain ⟨name, -, hbinding⟩ := hlive.binding
  have hhome : effective.binding.tenant = tenant := h.homed hbinding
  have hbound : Granted grants effective.binding.tenant effective.binding.grant := h.bound hbinding
  rw [hhome] at hbound
  exact hbound.le (Effective.grant_le_binding (hhome.trans hlive.home.symm))

/-! ## What each command keeps -/

theorem of_empty (h : world.Empty) : world.Delegated := by
  have hcredential {id : CredentialId} {credential : Credential} :
      ¬ world.state.credentials[id]? = some credential := by
    rw [h.credentials]
    exact fun hfound => nomatch (Std.ExtTreeMap.getElem?_empty).symm.trans hfound
  have hbinding {name : TenantId × BindingId} {binding : Binding} :
      ¬ world.state.bindings[name]? = some binding := by
    rw [h.bindings]
    exact fun hfound => nomatch (Std.ExtTreeMap.getElem?_empty).symm.trans hfound
  have hhash {hash : String} {id : CredentialId} :
      ¬ world.state.credentialHashes[hash]? = some id := by
    rw [h.credentialHashes]
    exact fun hfound => nomatch (Std.ExtTreeMap.getElem?_empty).symm.trans hfound
  exact {
    keyed := {
      named hfound := absurd hfound hcredential
      active hfound := absurd hfound hcredential
      indexed := ⟨fun hfound => absurd hfound hhash,
        fun ⟨_, hfound, _⟩ => absurd hfound hcredential⟩ }
    kept hfound := absurd hfound hcredential
    homed hfound := absurd hfound hbinding
    bound hfound := absurd hfound hbinding
    managed hfound := absurd hfound hbinding
    issued hfound := absurd hfound hcredential }

section

variable (h : World.Delegated ⟨state, stored, grants⟩)

include h

theorem prune :
    World.Delegated ⟨state.prune now, stored, grants⟩ where
  keyed := h.keyed.prune
  kept hfound := h.kept (TreeReads.getElem?_filter_eq_some.mp hfound).1
  homed := h.homed
  bound := h.bound
  managed := h.managed
  issued hfound := h.issued (TreeReads.getElem?_filter_eq_some.mp hfound).1

/-- Nothing else that commands change is authority. -/
theorem frame {state' : Snapshot} (hbindings : state'.bindings = state.bindings)
    (hcredentials : state'.credentials = state.credentials)
    (hhashes : state'.credentialHashes = state.credentialHashes) (hgrants : grants ⊆ grants') :
    World.Delegated ⟨state', stored, grants'⟩ where
  keyed := {
    named hfound := h.keyed.named (hcredentials ▸ hfound)
    active hfound := h.keyed.active (hcredentials ▸ hfound)
    indexed := by
      rw [hhashes, hcredentials]
      exact h.keyed.indexed }
  kept hfound := h.kept (hcredentials ▸ hfound)
  homed hfound := h.homed (hbindings ▸ hfound)
  bound hfound := (h.bound (hbindings ▸ hfound)).mono hgrants
  managed hfound hclass := hgrants (h.managed (hbindings ▸ hfound) hclass)
  issued hfound haudit := (h.issued (hcredentials ▸ hfound) haudit).mono hgrants

/-- **A binding is written.** -/
theorem bind {name : BindingId} {binding : Binding}
    (hhome : binding.tenant = tenant) (hbound : Granted grants' tenant binding.grant)
    (hmanaged : binding.byInstallation = true → binding ∈ grants') (hgrants : grants ⊆ grants') :
    World.Delegated
      ⟨{ state with bindings := state.bindings.insert (tenant, name) binding }, stored,
        grants'⟩ := by
  have hfound {key : TenantId × BindingId} {value : Binding}
      (hvalue : (state.bindings.insert (tenant, name) binding)[key]? = some value) :
      (tenant, name) = key ∧ binding = value ∨ state.bindings[key]? = some value := by
    rw [TreeReads.getElem?_insert] at hvalue
    split at hvalue
    · next hkey => exact .inl ⟨hkey, Option.some.inj hvalue⟩
    · exact .inr hvalue
  refine ⟨⟨h.keyed.named, h.keyed.active, h.keyed.indexed⟩, h.kept, fun hvalue => ?_,
    fun hvalue => ?_, fun hvalue hclass => ?_,
    fun hcredential haudit => (h.issued hcredential haudit).mono hgrants⟩
  · rcases hfound hvalue with ⟨hkey, hsame⟩ | hold
    · rw [← hsame, hhome]
      exact congrArg Prod.fst hkey
    · exact h.homed hold
  · rcases hfound hvalue with ⟨-, hsame⟩ | hold
    · rw [← hsame, hhome]
      exact hbound
    · exact (h.bound hold).mono hgrants
  · rcases hfound hvalue with ⟨-, hsame⟩ | hold
    · rw [← hsame] at hclass ⊢
      exact hmanaged hclass
    · exact hgrants (h.managed hold hclass)

/-- **A credential is put.** -/
private theorem put {credential : Credential}
    (hkeyed : Keyed (applyCredential state credential now))
    (hissued : credential.state = .active → credential.auditReader = false →
      Granted grants credential.tenant credential.grant) :
    World.Delegated
      ⟨applyCredential state credential now, stored.insert credential.id credential, grants⟩ := by
  have hfound {key : CredentialId} {value : Credential}
      (hvalue : (applyCredential state credential now).credentials[key]? = some value) :
      credential.id = key ∧ credential.state = .active ∧ credential = value
        ∨ ¬ credential.id = key ∧ state.credentials[key]? = some value := by
    rw [applyCredential_credentials] at hvalue
    split at hvalue
    · next hkey =>
      split at hvalue
      · next hput => exact .inl ⟨hkey, hput.1, Option.some.inj hvalue⟩
      · cases hvalue
    · next hkey => exact .inr ⟨hkey, hvalue⟩
  refine ⟨hkeyed, fun {key value} hvalue => ?_, fun hbinding => ?_, fun hbinding => ?_,
    fun hbinding => ?_, fun hvalue haudit => ?_⟩
  · show (stored.insert credential.id credential)[key]? = some value
    rw [TreeReads.getElem?_insert]
    rcases hfound hvalue with ⟨hkey, -, hsame⟩ | ⟨hkey, hold⟩
    · rw [if_pos hkey, hsame]
    · rw [if_neg hkey]
      exact h.kept hold
  · exact h.homed (applyCredential_bindings ▸ hbinding)
  · exact h.bound (applyCredential_bindings ▸ hbinding)
  · exact h.managed (applyCredential_bindings ▸ hbinding)
  · rcases hfound hvalue with ⟨-, hactive, hsame⟩ | ⟨-, hold⟩
    · rw [← hsame] at haudit ⊢
      exact hissued hactive haudit
    · exact h.issued hold haudit

theorem revoke (credential : Credential) (revision : RevisionId) (now : Instant) :
    World.Delegated ⟨applyCredential state (credential.revoke revision) now,
      stored.insert (credential.revoke revision).id (credential.revoke revision), grants⟩ := by
  have hstate : (credential.revoke revision).state ≠ .active := fun hactive => nomatch hactive
  exact h.put (h.keyed.revoke hstate) fun hactive => absurd hactive hstate

theorem issue {credential : Credential} (hid : stored[credential.id]? = none)
    (hhash : ∀ {id : CredentialId} {old : Credential}, stored[id]? = some old →
      old.keyHash ≠ credential.keyHash)
    (hissued : credential.auditReader = false → Granted grants credential.tenant credential.grant) :
    World.Delegated
      ⟨applyCredential state credential now, stored.insert credential.id credential, grants⟩ := by
  have hnew : state.credentials[credential.id]? = none := by
    rw [Option.eq_none_iff_forall_ne_some]
    exact fun old hold => nomatch hid.symm.trans (h.kept hold)
  exact h.put (h.keyed.issue hnew fun hold => hhash (h.kept hold)) fun _ => hissued

end

end World.Delegated

end BitRouter.Authority
