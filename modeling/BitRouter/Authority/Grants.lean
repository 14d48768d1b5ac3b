import BitRouter.Authority.Mutation
import Mathlib.Data.Set.Basic
import Mathlib.Order.Lattice
import Mathlib.Algebra.Order.Group.Int

/-!
# Grants

What authority is: permissions, resources and an end, ordered by inclusion
(`Grant`). The test of scopes is sound for that order (`keysOf_subset`), so what a
caller may pass on is within what it may do.
-/

namespace BitRouter.Authority

open BitRouter.Tenancy (TenantId)

/-- **An authority**: the permissions, the resources, and the instant it ends. The
order is inclusion in each. -/
abbrev Grant := Set Permission × Set ResourceKey × Instant

variable {scope narrow broad : GrantScope} {tenant : TenantId} {key : ResourceKey}

def keysOf (scope : GrantScope) (tenant : TenantId) : Set ResourceKey :=
  {key | coversKey scope tenant key = true}

def Binding.grant (binding : Binding) : Grant :=
  ({permission | permission ∈ binding.role.permissions}, keysOf binding.scope binding.tenant,
    binding.expires.instant)

def Credential.grant (credential : Credential) : Grant :=
  ({permission | permission ∈ credential.permissions},
    keysOf credential.scope credential.tenant, credential.expires.instant)

/-- **The effective authority**: that of the credential and of the binding, with pools
only where the installation manages the binding. -/
def Effective.grant (effective : Effective) : Grant :=
  ({permission | effective.permits permission = true},
    {key | key ∈ keysOf effective.credential.scope effective.credential.tenant
      ∧ key ∈ keysOf effective.binding.scope effective.credential.tenant
      ∧ (key.ownerKind = .operatorPool → effective.binding.byInstallation = true)},
    effective.credential.expires.instant ⊓ effective.binding.expires.instant)

/-! ## Scopes -/

theorem coversKey_tenant {pools : List ResourceKey} :
    coversKey (.tenant pools) tenant key = true ↔
      ¬ (key.ownerKind = .tenant ∧ key.ownerId ≠ tenant)
        ∧ (key.ownerKind = .tenant ∨ key ∈ pools) := by
  unfold coversKey
  split
  · next hforeign => simp [hforeign]
  · next hown => simp [hown]

theorem coversKey_resources {keys : List ResourceKey} :
    coversKey (.resources keys) tenant key = true ↔
      ¬ (key.ownerKind = .tenant ∧ key.ownerId ≠ tenant) ∧ key ∈ keys := by
  unfold coversKey
  split
  · next hforeign => simp [hforeign]
  · next hown => simp [hown]

theorem not_foreign_of_covers (h : coversKey scope tenant key = true) :
    ¬ (key.ownerKind = .tenant ∧ key.ownerId ≠ tenant) := by
  cases scope with
  | tenant pools => exact (coversKey_tenant.mp h).1
  | resources keys => exact (coversKey_resources.mp h).1

/-- **The test of scopes is sound.** -/
theorem keysOf_subset (h : scopeSubset narrow broad tenant = true) :
    keysOf narrow tenant ⊆ keysOf broad tenant := by
  intro key hkey
  have hown := not_foreign_of_covers hkey
  cases narrow with
  | tenant pools =>
    unfold scopeSubset at h
    rw [Bool.and_eq_true, List.all_eq_true] at h
    rcases (coversKey_tenant.mp hkey).2 with htenant | hpool
    · cases broad with
      | tenant pools' => exact coversKey_tenant.mpr ⟨hown, .inl htenant⟩
      | resources keys => exact absurd h.1 Bool.false_ne_true
    · have hcovered := h.2 key hpool
      rw [Bool.and_eq_true] at hcovered
      exact hcovered.2
  | resources keys =>
    unfold scopeSubset at h
    rw [Bool.and_eq_true, List.all_eq_true] at h
    exact h.2 key (coversKey_resources.mp hkey).2

def GrantScope.names : GrantScope → List ResourceKey
  | .tenant pools => pools
  | .resources keys => keys

theorem covers_of_names (h : scopeSubset narrow broad tenant = true) (hkey : key ∈ narrow.names) :
    coversKey broad tenant key = true := by
  cases narrow with
  | tenant pools =>
    unfold scopeSubset at h
    rw [Bool.and_eq_true, List.all_eq_true] at h
    have hcovered := h.2 key hkey
    rw [Bool.and_eq_true] at hcovered
    exact hcovered.2
  | resources keys =>
    unfold scopeSubset at h
    rw [Bool.and_eq_true, List.all_eq_true] at h
    exact h.2 key hkey

theorem hasPools_of_covers (h : coversKey scope tenant key = true)
    (hpool : key.ownerKind = .operatorPool) : hasPools scope = true := by
  cases scope with
  | tenant pools =>
    rcases (coversKey_tenant.mp h).2 with htenant | hmem
    · rw [hpool] at htenant
      cases htenant
    · cases pools with
      | nil => exact absurd hmem List.not_mem_nil
      | cons => rfl
  | resources keys =>
    exact List.any_eq_true.mpr ⟨key, (coversKey_resources.mp h).2, decide_eq_true hpool⟩

/-! ## What a caller passes on -/

variable {effective : Effective}

/-- **A scope that an authority covers is within it.** -/
theorem Effective.keysOf_subset_grant (h : effective.covers scope = true) :
    keysOf scope effective.credential.tenant ⊆ effective.grant.2.1 := by
  unfold Effective.covers at h
  simp only [Bool.and_eq_true, Bool.or_eq_true, Bool.not_eq_true'] at h
  obtain ⟨⟨hcredential, hbinding⟩, hpools⟩ := h
  refine fun key hkey => ⟨keysOf_subset hcredential hkey, keysOf_subset hbinding hkey,
    fun hpool => hpools.resolve_left ?_⟩
  rw [hasPools_of_covers hkey hpool]
  exact Bool.true_eq_false_eq_False

/-- **What is within a caller's permissions, scope and end is within its authority.** -/
theorem Effective.le_grant {permissions : List Permission} {expires : Instant}
    (hscope : effective.covers scope = true)
    (hpermissions : permissions.all effective.permits = true)
    (hexpires : effective.allowsExpiry expires = true) :
    (({permission | permission ∈ permissions}, keysOf scope effective.credential.tenant,
      expires) : Grant) ≤ effective.grant := by
  unfold Effective.allowsExpiry at hexpires
  rw [Bool.and_eq_true, decide_eq_true_eq, decide_eq_true_eq] at hexpires
  exact ⟨fun permission hmem => List.all_eq_true.mp hpermissions permission hmem,
    Effective.keysOf_subset_grant hscope, le_inf hexpires.1 hexpires.2⟩

theorem Effective.grant_le_binding (h : effective.binding.tenant = effective.credential.tenant) :
    effective.grant ≤ effective.binding.grant := by
  refine ⟨fun permission hpermission => ?_, fun key hkey => ?_, inf_le_right⟩
  · have hpermits : effective.permits permission = true := hpermission
    rw [Effective.permits, Bool.and_eq_true] at hpermits
    exact List.contains_iff_mem.mp hpermits.2
  · show key ∈ keysOf effective.binding.scope effective.binding.tenant
    rw [h]
    exact hkey.2.1

end BitRouter.Authority
