import BitRouter.Registry.Decimal

/-!
# Document admission

The parts of `document.rs` the other modules read: what a reader supports,
exact integers, the identity of an interface, and the admission of a price.
A price is admitted with ascending context thresholds and with every rate of
a known name an exact decimal, in the base and in each tier;
`TokenPrice` states what that leaves to rely on.
-/

namespace BitRouter.Registry

/-- The normative prerelease the reader accepts. -/
def specRevision : String := "1.0.0-beta.6"

/-- Capabilities declared by the installed reader. -/
structure ReaderPolicy where
  stableV1 : Bool := false
  betaRevisions : List String := [specRevision]
  features : List String := ["pricing.metered.v1"]

namespace ReaderPolicy

def supports (policy : ReaderPolicy) (object : Value) : Bool :=
  match object.get "requires" with
  | none => true
  | some requires =>
    match requires.asArray with
    | none => false
    | some features => features.all (fun feature =>
      match feature.asStr with
      | none => false
      | some name => name ∈ policy.features)

end ReaderPolicy

/-- A mathematically integral nonnegative number, as a `u64`. Decimal and
exponent spellings are read exactly. -/
def integer (value : Value) : Option ℕ :=
  match value.asNumber with
  | none => none
  | some lexeme =>
    match decimal lexeme with
    | .error _ => none
    | .ok q => if q.den = 1 ∧ q.num < 2 ^ 64 then some q.num.toNat else none

/-! ## The admission of a price -/

def threshold (tier : Value) : ℕ := (integer tier["above_input_tokens"]).getD 0

def checkThresholds (path : String) : ℕ → List Value → Except RegistryError Unit
  | _, [] => .ok ()
  | previous, tier :: tiers => do
    ensure (previous < threshold tier)
      (.invalid path "Context thresholds must be positive and strictly ascending")
    checkThresholds path (threshold tier) tiers

/-- The rate names a tariff knows, per group. -/
def knownRates : List (String × List String) :=
  [("input_tokens", ["no_cache", "cache_read", "cache_write"]),
    ("output_tokens", ["text", "reasoning"])]

/-- Every rate of a known name is an exact decimal. -/
def checkRates (path : String) (rates : Value) : Except RegistryError Unit :=
  knownRates.forM (fun (field, known) =>
    (((rates.get field).bind Value.asObject).getD []).forM (fun (name, number) =>
      if name ∈ known then
        match decimal number.render with
        | .ok _ => .ok ()
        | .error _ => .error (.invalid path "Invalid or excessive decimal rate")
      else .ok ()))

/-- Present fields are exact positive integers. -/
def positiveFields (value : Value) (fields : List String) (path : String) :
    Except RegistryError Unit :=
  fields.forM (fun field =>
    match value.get field with
    | none => .ok ()
    | some v => ensure ((integer v).any (0 < ·) = true)
      (.invalid (path ++ "/" ++ field) "Expected an exact positive u64 integer"))

def checkMeters (path : String) : List String → List Value → Except RegistryError Unit
  | _, [] => .ok ()
  | ids, meter :: meters => do
    positiveFields meter ["quantity"] path
    let id := meter["id"].asStr.getD ""
    ensure (id ∉ ids) (.invalid path "Duplicate meter identity")
    match decimal (meter["amount"].asStr.getD "") with
    | .ok _ => checkMeters path (id :: ids) meters
    | .error _ => .error (.invalid path "Invalid or excessive meter amount")

def validatePrice (price : Value) (path : String) : Except RegistryError Unit :=
  match price["kind"].asStr with
  | some "token" => do
    checkThresholds path 0 price["context_tiers"].items
    (price :: price["context_tiers"].items).forM (checkRates path)
  | some "metered" => do
    ensure (price["requires"].items.any (fun v => v.isStr "pricing.metered.v1") = true)
      (.invalid path "Metered tariff requires pricing.metered.v1")
    checkMeters path [] price["meters"].items
  | _ => .ok ()

/-! ## What an admitted token price may rely on -/

def rateEntry (rates : Value) (group name : String) : Option Value :=
  (rates.get group).bind (fun v => v.get name)

/-- The exact value of a rate entry. -/
def rateValue (v : Value) : ℚ :=
  match decimal v.render with
  | .ok q => q
  | .error _ => 0

/-- **An admitted token price**: its context thresholds ascend, and every
known rate, in the base and in each tier, is an exact decimal. -/
structure TokenPrice (price : Value) : Prop where
  ascending : price["context_tiers"].items.Pairwise (fun a b => threshold a < threshold b)
  integral : ∀ tier ∈ price["context_tiers"].items,
    integer tier["above_input_tokens"] = some (threshold tier)
  rate : ∀ rates ∈ price :: price["context_tiers"].items, ∀ group names,
    (group, names) ∈ knownRates → ∀ name ∈ names, ∀ v,
      rateEntry rates group name = some v → decimal v.render = .ok (rateValue v)

theorem integer_of_lt_threshold {tier : Value} {n : ℕ} (h : n < threshold tier) :
    integer tier["above_input_tokens"] = some (threshold tier) := by
  unfold threshold at h ⊢
  cases hint : integer tier["above_input_tokens"] with
  | none =>
    rw [hint] at h
    exact absurd h (Nat.not_lt_zero n)
  | some m => rfl

variable {path : String}

theorem checkThresholds_ok {previous : ℕ} {tiers : List Value}
    (h : checkThresholds path previous tiers = .ok ()) :
    (∀ tier ∈ tiers, previous < threshold tier)
      ∧ tiers.Pairwise (fun a b => threshold a < threshold b) := by
  induction tiers generalizing previous with
  | nil => simp
  | cons tier tiers ih =>
    obtain ⟨_, hlt, hrest⟩ := bind_eq_ok.mp h
    rw [ensure_eq_ok] at hlt
    obtain ⟨hgt, hpair⟩ := ih hrest
    exact ⟨List.forall_mem_cons.mpr ⟨hlt, fun t ht => hlt.trans (hgt t ht)⟩,
      List.pairwise_cons.mpr ⟨hgt, hpair⟩⟩

theorem checkRates_ok {rates : Value} (h : checkRates path rates = .ok ()) {group : String}
    {names : List String} (hgroup : (group, names) ∈ knownRates) {name : String}
    (hname : name ∈ names) {v : Value} (hv : rateEntry rates group name = some v) :
    decimal v.render = .ok (rateValue v) := by
  have hfield := forM_eq_ok.mp (forM_eq_ok.mp h _ hgroup)
  obtain ⟨o, ho, hget⟩ := Option.bind_eq_some_iff.mp hv
  cases o with
  | object fields =>
    have hcheck := hfield (name, v) (by
      rw [ho]
      exact IndexMap.mem_of_get_eq_some hget)
    dsimp only at hcheck
    rw [if_pos hname] at hcheck
    unfold rateValue
    cases hdec : decimal v.render with
    | ok q => rfl
    | error e =>
      rw [hdec] at hcheck
      exact absurd hcheck (by simp)
  | _ => exact absurd hget (by simp [Value.get])

/-- **What admission establishes.** -/
theorem TokenPrice.of_validatePrice {price : Value} (hkind : price["kind"].asStr = some "token")
    (h : validatePrice price path = .ok ()) : TokenPrice price := by
  unfold validatePrice at h
  rw [hkind] at h
  obtain ⟨_, hthresholds, hrates⟩ := bind_eq_ok.mp h
  obtain ⟨hpos, hpair⟩ := checkThresholds_ok hthresholds
  exact ⟨hpair, fun tier htier => integer_of_lt_threshold (hpos tier htier),
    fun rates hmem group names hgroup name hname v hv =>
      checkRates_ok (forM_eq_ok.mp hrates rates hmem) hgroup hname hv⟩

end BitRouter.Registry
