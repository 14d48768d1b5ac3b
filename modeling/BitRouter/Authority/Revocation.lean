import BitRouter.Authority.Runs

/-!
# Revocation

A credential that is revoked, by a command or because another took its place,
is only history: the facts hold active credentials alone, and what is generated
for a new one is new, so no later command brings it back.
-/

namespace BitRouter.Authority

open BitRouter.Tenancy (TenantId CredentialId)

variable {host : Host} {world next : World} {request : Request} {applied : Applied}
variable {id : CredentialId}

/-- Whether the last version of a credential that was stored is revoked. -/
def IsRevoked (stored : IdMap Credential) (id : CredentialId) : Prop :=
  ∃ credential : Credential, stored[id]? = some credential ∧ credential.state = .revoked

/-- Storing changes leaves it so, if those of the credential revoke it. -/
theorem IsRevoked.store {changes : List Change} {stored : IdMap Credential}
    (h : IsRevoked stored id)
    (hchanges : ∀ value, .credential value ∈ changes → value.id = id → value.state = .revoked) :
    IsRevoked (changes.foldl Change.store stored) id := by
  induction changes generalizing stored with
  | nil => exact h
  | cons change changes ih =>
    refine ih ?_ fun value hvalue => hchanges value (List.mem_cons_of_mem _ hvalue)
    cases change with
    | credential value =>
      show IsRevoked (stored.insert value.id value) id
      unfold IsRevoked
      rw [TreeReads.getElem?_insert]
      by_cases hid : value.id = id
      · exact ⟨value, if_pos hid, hchanges value List.mem_cons_self hid⟩
      · rw [if_neg hid]
        exact h
    | _ => exact h

/-- **A command leaves what is revoked revoked**: it revokes itself, or issues
under a new name. -/
theorem IsRevoked.execute (h : IsRevoked world.stored id) (hfresh : request.Fresh host world)
    (hexecute : world.execute host request = .ok (next, applied)) : IsRevoked next.stored id := by
  obtain ⟨principal, prepared, candidate, -, -, happly, hnext⟩ := execute_ok hexecute
  have hnew : request.command.issues = true → request.generated.credential ≠ id := by
    rintro hissues rfl
    obtain ⟨credential, hfound, -⟩ := h
    exact nomatch (hfresh hissues).1.symm.trans hfound
  rw [hnext]
  refine h.store fun value hvalue hid => ?_
  obtain ⟨caller, command, read, prepare, apply, generated⟩ := request
  cases command with
  | tenant name expected tenantState =>
    obtain ⟨_, -, hchanges⟩ := applyTenant_ok happly
    simp [hchanges] at hvalue
  | principal name expected issuer subject =>
    obtain ⟨_, -, hchanges⟩ := applyPrincipal_ok happly
    simp [hchanges] at hvalue
  | binding tenant name input =>
    obtain ⟨_, -, -, -, -, -, -, hchanges⟩ := applyBinding_ok happly
    simp [hchanges] at hvalue
  | detach tenant name expected =>
    obtain ⟨_, _, -, -, -, hchanges⟩ := applyDetach_ok happly
    simp [hchanges] at hvalue
  | revoke tenant name expected =>
    obtain ⟨-, hchanges⟩ | ⟨_, -, -, hchanges⟩ := applyRevoke_ok happly
    · simp [hchanges] at hvalue
    · rw [hchanges, List.mem_singleton] at hvalue
      rw [Change.credential.inj hvalue]
      rfl
  | auditReader tenant input =>
    obtain ⟨credential, hname, -, -, -, -, hchanges⟩ := applyAuditReader_ok happly
    rw [hchanges, List.mem_singleton] at hvalue
    obtain rfl := Change.credential.inj hvalue
    exact absurd (hname.symm.trans hid) (hnew rfl)
  | issue tenant input =>
    obtain ⟨_, _, old, -, -, -, -, -, -, hchanges⟩ := applyIssue_ok happly
    rw [hchanges, List.mem_append, List.mem_singleton] at hvalue
    rcases hvalue with hvalue | hvalue
    · obtain ⟨revoked, hrevoked, hsame⟩ := List.mem_map.mp hvalue
      rw [Option.mem_toList, Option.map_eq_some_iff] at hrevoked
      obtain ⟨_, -, rfl⟩ := hrevoked
      rw [← Change.credential.inj hsame]
      rfl
    · rw [Change.credential.inj hvalue] at hid
      exact absurd hid (hnew rfl)

/-- The facts do not have a credential that is revoked. -/
theorem World.Delegated.unauthorized (h : world.Delegated) (hrevoked : IsRevoked world.stored id)
    (now : Instant) : world.state.credential (.credential id) now = .error .unauthorized := by
  have hnone : world.state.credentials[id]? = none := by
    rw [Option.eq_none_iff_forall_ne_some]
    intro credential hfound
    obtain ⟨stored, hstored, hstate⟩ := hrevoked
    rw [← Option.some.inj ((h.kept hfound).symm.trans hstored)] at hstate
    exact nomatch (h.keyed.active hfound).symm.trans hstate
  show orFail (world.state.credentials[id]?.filter _) _ = _
  rw [hnone]
  rfl

/-- **A command with new secrets is executed, or refused.** -/
def World.Command (host : Host) (world next : World) : Prop :=
  ∃ request : Request, request.Fresh host world ∧ next = world.step host request

/-- **Revocation is final.** From a world that commands reach and in which a
credential is revoked, no commands lead to one in which it authenticates: it
is authorized for nothing, and each of its commands is refused. -/
theorem revocation_final (h : World.Reachable host world) (hrevoked : IsRevoked world.stored id)
    {later : World} (hlater : Relation.ReflTransGen (World.Command host) world later) :
    IsRevoked later.stored id
      ∧ (∀ tenant permission scope now,
        later.state.authorize (.credential id) tenant permission scope now
          = .error .unauthorized)
      ∧ ∀ request, request.caller = .credential id →
        later.execute host request = .error .unauthorized := by
  have hkept : World.Reachable host later ∧ IsRevoked later.stored id := by
    induction hlater with
    | refl => exact ⟨h, hrevoked⟩
    | tail _ hstep ih =>
      obtain ⟨request, hfresh, rfl⟩ := hstep
      refine ⟨.step request ih.1 hfresh, ?_⟩
      unfold World.step
      split
      · next hexecute => exact ih.2.execute hfresh hexecute
      · exact ih.2
  obtain ⟨hreachable, hstill⟩ := hkept
  have hrefused := fun now => hreachable.delegated.unauthorized hstill now
  refine ⟨hstill, fun tenant permission scope now => ?_, fun request hcaller => ?_⟩
  · unfold Snapshot.authorize Snapshot.effective
    rw [hrefused now]
    rfl
  · unfold World.execute Snapshot.principal
    rw [hcaller]
    show ((later.state.credential (.credential id) request.read).map Credential.principal >>= _) = _
    rw [hrefused]
    rfl

namespace Delegating

def revokeFirst : Request :=
  ask (.installation operatorId) (.revoke tenantId first revision) 3 second ""

def issueSecond : Request :=
  ask (.installation operatorId)
    (issue 3 TenantRole.tenantAdmin.permissions none "1970-01-01T01:00:00Z") 4 second "two"

/-- The second credential binds a viewer. -/
def delegateSecond : Request := { delegate with caller := .credential second }

/-- The first credential is issued and revoked, and a second one is issued and used: the
first stays refused. -/
theorem revocation_final_first :
    let later := start.run clock [grant, issueFirst, revokeFirst, issueSecond, delegateSecond]
    later.state.credentials.keys = [second] ∧ later.state.bindings.size = 2
      ∧ later.execute clock delegate = .error .unauthorized := by
  have hstart : start.Empty := ⟨rfl, rfl, rfl, rfl, rfl⟩
  have hgranted : World.Reachable clock (start.run clock [grant]) :=
    .step grant (.empty hstart) fun hissues => nomatch hissues
  have hissued : World.Reachable clock (start.run clock [grant, issueFirst]) :=
    .step issueFirst hgranted (Request.fresh_of_toList (by decide +kernel) (by decide +kernel))
  have hrevoked : World.Reachable clock (start.run clock [grant, issueFirst, revokeFirst]) :=
    .step revokeFirst hissued fun hissues => nomatch hissues
  have hstored : ((start.run clock [grant, issueFirst, revokeFirst]).stored[first]?.any
      fun credential => credential.state = .revoked) = true := by decide +kernel
  obtain ⟨credential, hfound, hstate⟩ := (Option.any_eq_true _ _).mp hstored
  have hlater : Relation.ReflTransGen (World.Command clock)
      (start.run clock [grant, issueFirst, revokeFirst])
      (start.run clock [grant, issueFirst, revokeFirst, issueSecond, delegateSecond]) :=
    .tail (.single ⟨issueSecond, Request.fresh_of_toList (by decide +kernel) (by decide +kernel),
      rfl⟩) ⟨delegateSecond, (fun hissues => nomatch hissues), rfl⟩
  exact ⟨by decide +kernel, by decide +kernel, (revocation_final hrevoked
    ⟨credential, hfound, by simpa using hstate⟩ hlater).2.2 delegate rfl⟩

end Delegating

end BitRouter.Authority
