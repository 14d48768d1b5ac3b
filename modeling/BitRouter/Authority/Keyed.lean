import BitRouter.Authority.Mutation
import BitRouter.Data.TreeReads

/-!
# Hashes of credentials

The facts find a credential by its id and by the hash of its secret. `Keyed` says that
the two agree and that what is found is active. A credential that is revoked leaves
both maps under the hash it had, so no revocation can leave a hash behind.
-/

namespace BitRouter.Authority

open BitRouter.Tenancy (CredentialId)

variable {state : Snapshot} {credential old : Credential} {id : CredentialId}
variable {now : Instant}

/-- **Credentials and hashes are in bijection, and each credential is active.** -/
structure Keyed (state : Snapshot) : Prop where
  named : ∀ {id : CredentialId} {credential : Credential},
    state.credentials[id]? = some credential →
    credential.id = id
  active : ∀ {id : CredentialId} {credential : Credential},
    state.credentials[id]? = some credential →
    credential.state = .active
  indexed : ∀ {hash : String} {id : CredentialId}, state.credentialHashes[hash]? = some id ↔
    ∃ credential : Credential, state.credentials[id]? = some credential
      ∧ credential.keyHash = hash

/-! ## Putting a credential -/

/-- The facts without the last version of a credential. -/
private def without (state : Snapshot) (id : CredentialId) : Snapshot :=
  state.credentials[id]?.elim state fun old => { state with
    credentials := state.credentials.erase id
    credentialHashes := state.credentialHashes.erase old.keyHash }

private theorem applyCredential_eq : applyCredential state credential now =
    if credential.state = .active ∧ now < credential.expires.instant then
      { without state credential.id with
        credentialHashes :=
          (without state credential.id).credentialHashes.insert credential.keyHash credential.id
        credentials := (without state credential.id).credentials.insert credential.id credential }
    else without state credential.id :=
  rfl

private theorem without_bindings : (without state id).bindings = state.bindings := by
  unfold without
  cases state.credentials[id]? <;> rfl

private theorem without_credentials {key : CredentialId} :
    (without state id).credentials[key]? = if id = key then none else state.credentials[key]? := by
  unfold without
  cases hold : state.credentials[id]? with
  | none =>
    show state.credentials[key]? = _
    by_cases hkey : id = key
    · rw [if_pos hkey, ← hkey, hold]
    · rw [if_neg hkey]
  | some old => exact TreeReads.getElem?_erase

/-- A credential that is put leaves the bindings as they are. -/
theorem applyCredential_bindings :
    (applyCredential state credential now).bindings = state.bindings := by
  rw [applyCredential_eq]
  split
  · exact without_bindings
  · exact without_bindings

/-- **What is found after a credential is put.** -/
theorem applyCredential_credentials :
    (applyCredential state credential now).credentials[id]? =
      if credential.id = id then
        if credential.state = .active ∧ now < credential.expires.instant then some credential
        else none
      else state.credentials[id]? := by
  rw [applyCredential_eq]
  by_cases hput : credential.state = .active ∧ now < credential.expires.instant
  · rw [if_pos hput, if_pos hput]
    show ((without state credential.id).credentials.insert credential.id credential)[id]? = _
    rw [TreeReads.getElem?_insert, without_credentials]
    by_cases hid : credential.id = id
    · rw [if_pos hid, if_pos hid]
    · rw [if_neg hid, if_neg hid, if_neg hid]
  · rw [if_neg hput, if_neg hput, without_credentials]

namespace Keyed

/-- Two credentials with one hash are one. -/
theorem unique (h : Keyed state) {left right : Credential} {leftId rightId : CredentialId}
    (hleft : state.credentials[leftId]? = some left)
    (hright : state.credentials[rightId]? = some right) (hhash : left.keyHash = right.keyHash) :
    leftId = rightId := by
  have hfirst := h.indexed.mpr ⟨left, hleft, hhash⟩
  have hsecond := h.indexed.mpr ⟨right, hright, rfl⟩
  exact Option.some.inj (hfirst.symm.trans hsecond)

private theorem without (h : Keyed state) : Keyed (without state id) := by
  refine ⟨fun hfound => ?_, fun hfound => ?_, fun {hash key} => ?_⟩
  · rw [without_credentials] at hfound
    split at hfound
    · cases hfound
    · exact h.named hfound
  · rw [without_credentials] at hfound
    split at hfound
    · cases hfound
    · exact h.active hfound
  · unfold Authority.without
    cases hold : state.credentials[id]? with
    | none => exact h.indexed
    | some old =>
      show (state.credentialHashes.erase old.keyHash)[hash]? = some key ↔
        ∃ credential, (state.credentials.erase id)[key]? = some credential
          ∧ credential.keyHash = hash
      rw [TreeReads.getElem?_erase, TreeReads.getElem?_erase]
      constructor
      · intro hfound
        split at hfound
        · cases hfound
        · next hhash =>
          obtain ⟨credential, hcredential, hkey⟩ := h.indexed.mp hfound
          have hother : ¬ id = key := fun hsame => by
            rw [← hsame, hold] at hcredential
            exact hhash ((congrArg Credential.keyHash (Option.some.inj hcredential)).trans hkey)
          exact ⟨credential, by rw [if_neg hother, hcredential], hkey⟩
      · rintro ⟨credential, hcredential, hkey⟩
        split at hcredential
        · cases hcredential
        · next hother =>
          have hhash : ¬ old.keyHash = hash := fun hsame =>
            hother (h.unique hold hcredential (hsame.trans hkey.symm))
          rw [if_neg hhash]
          exact h.indexed.mpr ⟨credential, hcredential, hkey⟩

/-- **A credential that is not active is put.** -/
theorem revoke (h : Keyed state) (hstate : credential.state ≠ .active) :
    Keyed (applyCredential state credential now) := by
  rw [applyCredential_eq, if_neg fun hput => hstate hput.1]
  exact h.without

/-- **A new credential is put**, with a new hash. -/
theorem issue (h : Keyed state) (hnew : state.credentials[credential.id]? = none)
    (hhash : ∀ {id : CredentialId} {old : Credential}, state.credentials[id]? = some old →
      old.keyHash ≠ credential.keyHash) :
    Keyed (applyCredential state credential now) := by
  have hsame : Authority.without state credential.id = state := by
    unfold Authority.without
    rw [hnew]
    rfl
  rw [applyCredential_eq, hsame]
  split
  swap
  · exact h
  next hput =>
    have hfound {key : CredentialId} {value : Credential} :
      (state.credentials.insert credential.id credential)[key]? = some value
        ↔ if credential.id = key then credential = value
          else state.credentials[key]? = some value := by
      rw [TreeReads.getElem?_insert]
      by_cases hkey : credential.id = key
      · rw [if_pos hkey, if_pos hkey]
        exact Option.some_inj
      · rw [if_neg hkey, if_neg hkey]
    refine ⟨fun hvalue => ?_, fun hvalue => ?_, fun {hash key} => ?_⟩
    · have hcases := hfound.mp hvalue
      split at hcases
      · next hkey => rw [← hcases, hkey]
      · exact h.named hcases
    · have hcases := hfound.mp hvalue
      split at hcases
      · next hkey => rw [← hcases, hput.1]
      · exact h.active hcases
    · show (state.credentialHashes.insert credential.keyHash credential.id)[hash]? = some key ↔
        ∃ value, (state.credentials.insert credential.id credential)[key]? = some value
          ∧ value.keyHash = hash
      rw [TreeReads.getElem?_insert]
      by_cases hkey : credential.keyHash = hash
      · rw [if_pos hkey]
        constructor
        · intro hid
          exact ⟨credential, hfound.mpr (by rw [if_pos (Option.some.inj hid)]), hkey⟩
        · rintro ⟨value, hvalue, hvalueHash⟩
          have hcases := hfound.mp hvalue
          split at hcases
          · next hid => rw [hid]
          · exact absurd (hvalueHash.trans hkey.symm) (hhash hcases)
      · rw [if_neg hkey, h.indexed]
        constructor
        · rintro ⟨value, hvalue, hvalueHash⟩
          -- A new credential has taken the place of none.
          have hother : ¬ credential.id = key := fun hid => by
            rw [← hid, hnew] at hvalue
            cases hvalue
          exact ⟨value, hfound.mpr (by rw [if_neg hother]; exact hvalue), hvalueHash⟩
        · rintro ⟨value, hvalue, hvalueHash⟩
          have hcases := hfound.mp hvalue
          split at hcases
          · rw [← hcases] at hvalueHash
            exact absurd hvalueHash hkey
          · exact ⟨value, hcases, hvalueHash⟩

/-- **Expired credentials are left out**, and their hashes with them. -/
theorem prune (h : Keyed state) : Keyed (state.prune now) := by
  have hfound {key : CredentialId} {value : Credential} :
    (state.prune now).credentials[key]? = some value ↔
      state.credentials[key]? = some value ∧ decide (now < value.expires.instant) = true :=
    TreeReads.getElem?_filter_eq_some
  refine ⟨fun hvalue => h.named (hfound.mp hvalue).1, fun hvalue => h.active (hfound.mp hvalue).1,
    fun {hash key} => ?_⟩
  show (state.credentialHashes.filter fun _ id => id ∈ (state.prune now).credentials)[hash]?
    = some key ↔ _
  rw [TreeReads.getElem?_filter_eq_some, h.indexed, decide_eq_true_eq, TreeReads.mem_iff_exists]
  constructor
  · rintro ⟨⟨credential, hcredential, hkey⟩, value, hvalue⟩
    have hsame := (hfound.mp hvalue).1.symm.trans hcredential
    exact ⟨value, hvalue, (congrArg Credential.keyHash (Option.some.inj hsame)).trans hkey⟩
  · rintro ⟨value, hvalue, hkey⟩
    exact ⟨⟨value, (hfound.mp hvalue).1, hkey⟩, value, hvalue⟩

end Keyed

end BitRouter.Authority
