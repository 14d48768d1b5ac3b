import BitRouter.Receipts.Evidence
import Mathlib.Data.List.Induction
import Mathlib.Data.List.Perm.Subperm

/-!
# When usage is complete

What a run of observations has to look like for the evidence to certify the
usage as complete. The counters of a protocol that does not count up form a
flat order: a counter is absent, then known, and every other report takes it
to `invalid`, which latches `incomplete`. A usage object that has its shape
is therefore one reading of every counter, whatever path the reading takes,
and the evidence follows a run of such objects exactly as long as the
readings are in range and agree. Nothing in that condition mentions the
order of the objects.

Messages counts up instead, but has no reasoning counter, so that no run of
Messages objects is complete; and objects of two protocols conflict.
-/

namespace BitRouter.Receipts

open Tenancy Evidence

/-- One call of `observe`. -/
structure Observation where
  protocol : Protocol
  raw : Json

/-- The evidence after a run of observations. -/
def observeAll (os : List Observation) : Evidence :=
  os.foldl (fun e o => e.observe o.protocol o.raw) {}

theorem observeAll_append (os : List Observation) (o : Observation) :
    observeAll (os ++ [o]) = (observeAll os).observe o.protocol o.raw :=
  List.foldl_append

/-! ## What an object reports -/

/-- An object all of whose members have a known name. -/
def KnownObject (v : Json) (known : List String) : Prop :=
  ∃ fields, v = .object fields ∧ ∀ e ∈ fields, e.1 ∈ known

/-- A JSON value whose members, if it has any, have distinct names, as those
of a map have. -/
def DistinctNames (v : Json) : Prop := ∀ fields, v = .object fields → (IndexMap.keys fields).Nodup

namespace Observation

def names (o : Observation) : List String :=
  [(fieldNames o.protocol).1, (fieldNames o.protocol).2.1, "total_tokens",
    (fieldNames o.protocol).2.2.1, (fieldNames o.protocol).2.2.2]

def containers (o : Observation) : List (String × List String) :=
  [((fieldNames o.protocol).2.2.1, ["cached_tokens", "cache_write_tokens"]),
    ((fieldNames o.protocol).2.2.2, ["reasoning_tokens"])]

/-- The member that reports a counter. -/
def report (o : Observation) : Fin 5 → Option Json
  | 0 => o.raw.get (fieldNames o.protocol).1
  | 1 => o.raw.get (fieldNames o.protocol).2.1
  | 2 => (o.raw.get (fieldNames o.protocol).2.2.1).bind (·.get "cached_tokens")
  | 3 => (o.raw.get (fieldNames o.protocol).2.2.1).bind (·.get "cache_write_tokens")
  | 4 => (o.raw.get (fieldNames o.protocol).2.2.2).bind (·.get "reasoning_tokens")

/-- The member that reports the total. -/
def total (o : Observation) : Option Json := o.raw.get "total_tokens"

/-- **An object of known names**, its containers of details too. -/
structure WellFormed (o : Observation) : Prop where
  names : KnownObject o.raw o.names
  details : ∀ c ∈ o.containers, ∀ v, o.raw.get c.1 = some v → KnownObject v c.2

/-- The maps of an observation have distinct names. -/
structure Distinct (o : Observation) : Prop where
  names : DistinctNames o.raw
  details : ∀ name v, o.raw.get name = some v → DistinctNames v

end Observation

section Reports

variable {os : List Observation} {f : Observation → Option Json} {n : ℕ}

/-- One of the observations reports a counter as `n`. -/
def Reports (os : List Observation) (f : Observation → Option Json) (n : ℕ) : Prop :=
  ∃ o ∈ os, (f o).bind number = some n

theorem reports_append {o : Observation} :
    Reports (os ++ [o]) f n ↔ Reports os f n ∨ (f o).bind number = some n := by
  unfold Reports
  simp only [List.mem_append, List.mem_singleton, or_and_right, exists_or, exists_eq_left]

end Reports

/-! ## One report -/

namespace Counter

/-- A report a counter takes without becoming invalid. -/
def Meets (counter : Counter) (value : Option Json) : Prop :=
  ∀ v, value = some v → ∃ n, number v = some n ∧ (counter = .absent ∨ counter = .known n)

/-- A counter after a report it meets. -/
def after (counter : Counter) (value : Option Json) : Counter :=
  match value.bind number with
  | some n => .known n
  | none => counter

/-- **A counter that holds what the observations report.** -/
structure Follows (counter : Counter) (os : List Observation) (f : Observation → Option Json) :
    Prop where
  valid : counter ≠ .invalid
  known : ∀ n, counter = .known n ↔ Reports os f n

variable {counter : Counter} {os : List Observation} {f : Observation → Option Json}
  {o : Observation}

theorem Follows.absent (h : counter.Follows os f) (hnone : ∀ n, ¬Reports os f n) :
    counter = .absent := by
  cases hc : counter with
  | absent => rfl
  | known n => exact absurd ((h.known n).mp hc) (hnone n)
  | invalid => exact absurd hc h.valid

/-- A counter takes a report exactly if it is in range and no observation
before disagrees. -/
theorem Follows.meets_iff (h : counter.Follows os f) (value : Option Json) :
    counter.Meets value ↔
      ∀ v, value = some v → ∃ n, number v = some n ∧ ∀ m, Reports os f m → m = n := by
  constructor
  · intro hmeets v hv
    obtain ⟨n, hn, hc⟩ := hmeets v hv
    refine ⟨n, hn, fun m hm => ?_⟩
    have hknown : counter = .known m := (h.known m).mpr hm
    cases hc with
    | inl habsent => rw [hknown] at habsent; cases habsent
    | inr heq => rw [hknown] at heq; exact Counter.known.inj heq
  · intro hagree v hv
    obtain ⟨n, hn, hall⟩ := hagree v hv
    refine ⟨n, hn, ?_⟩
    by_cases hsome : ∃ m, Reports os f m
    · obtain ⟨m, hm⟩ := hsome
      rw [← hall m hm]
      exact Or.inr ((h.known m).mpr hm)
    · exact Or.inl (h.absent (fun m hm => hsome ⟨m, hm⟩))

theorem Follows.append (h : counter.Follows os f) (hmeets : counter.Meets (f o)) :
    (counter.after (f o)).Follows (os ++ [o]) f := by
  cases hv : f o with
  | none =>
    refine ⟨h.valid, fun n => ?_⟩
    show counter = .known n ↔ _
    rw [reports_append, hv, h.known n]
    simp only [Option.bind_none, reduceCtorEq, or_false]
  | some v =>
    obtain ⟨m, hm, hc⟩ := hmeets v hv
    have hafter : counter.after (some v) = .known m := by
      unfold after
      rw [Option.bind_some, hm]
    rw [hafter]
    refine ⟨by simp, fun n => ?_⟩
    rw [reports_append, hv, Option.bind_some, hm, Counter.known.injEq, Option.some.injEq]
    constructor
    · exact Or.inr
    · intro hn
      cases hn with
      | inr heq => exact heq
      | inl hn =>
        have hknown : counter = .known n := (h.known n).mpr hn
        cases hc with
        | inl habsent => rw [hknown] at habsent; cases habsent
        | inr heq => rw [hknown] at heq; exact (Counter.known.inj heq).symm

end Counter

variable {total : Counter}

namespace Evidence

variable {e : Evidence} {protocol : Protocol} {i : Fin 5} {value : Option Json}

theorem field_of_meets (h : (e.counters i).Meets value) :
    e.field i value protocol = e.setCounter i ((e.counters i).after value) := by
  cases value with
  | none =>
    show e = _
    unfold setCounter
    rw [show (e.counters i).after none = e.counters i from rfl, Function.update_eq_self]
  | some v =>
    obtain ⟨n, hn, hc⟩ := h v rfl
    unfold field Counter.after
    simp only [Option.bind_some, hn]
    cases hc with
    | inl habsent => rw [habsent]
    | inr hknown => rw [hknown]; simp only [true_or, if_true]

theorem field_of_not_meets (hp : protocol ≠ .messages) (h : ¬(e.counters i).Meets value) :
    (e.field i value protocol).incomplete = true := by
  cases value with
  | none => exact absurd (fun v hv => by cases hv) h
  | some v =>
    unfold field
    cases hn : number v with
    | none =>
      simp only [hn]
      rfl
    | some n =>
      simp only [hn]
      cases hc : e.counters i with
      | absent =>
        refine absurd (fun v' hv' => ⟨n, ?_, Or.inl hc⟩) h
        rw [← Option.some.inj hv', hn]
      | invalid => rfl
      | known m =>
        have hne : m ≠ n := by
          rintro rfl
          refine h (fun v' hv' => ⟨m, ?_, Or.inr hc⟩)
          rw [← Option.some.inj hv', hn]
        simp only [hne, hp, false_and, or_self, if_false]
        rfl

/-! ## All counters of an object -/

/-- The reports of the counters, one after the other. -/
def fields (report : Fin 5 → Option Json) (protocol : Protocol) (indices : List (Fin 5))
    (e : Evidence) : Evidence :=
  indices.foldl (fun e i => e.field i (report i) protocol) e

variable {report : Fin 5 → Option Json} {indices : List (Fin 5)}

/-- Reports that every counter meets are taken all at once: the indices
differ, so that no report reads what another one wrote. -/
theorem fields_of_meets {counters : Fin 5 → Counter} (hnodup : indices.Nodup)
    (h : ∀ i ∈ indices, (e.counters i).Meets (report i))
    (hin : ∀ i ∈ indices, counters i = (e.counters i).after (report i))
    (hout : ∀ i, i ∉ indices → counters i = e.counters i) :
    e.fields report protocol indices = { e with counters } := by
  induction indices generalizing e with
  | nil =>
    obtain rfl : counters = e.counters := by
      funext i
      exact hout i List.not_mem_nil
    rfl
  | cons i is ih =>
    obtain ⟨hi, his⟩ := List.nodup_cons.mp hnodup
    have hframe : ∀ j, j ≠ i → (e.setCounter i ((e.counters i).after (report i))).counters j =
        e.counters j := fun j hj => Function.update_of_ne hj _ _
    have hrest : ∀ j ∈ is, j ≠ i := fun j hj heq => hi (heq ▸ hj)
    show (e.field i (report i) protocol).fields report protocol is = _
    rw [field_of_meets (h i List.mem_cons_self)]
    refine ih his (fun j hj => ?_) (fun j hj => ?_) (fun j hj => ?_)
    · rw [hframe j (hrest j hj)]
      exact h j (List.mem_cons_of_mem _ hj)
    · rw [hframe j (hrest j hj)]
      exact hin j (List.mem_cons_of_mem _ hj)
    · by_cases heq : j = i
      · subst heq
        show counters j = Function.update e.counters j _ j
        rw [Function.update_self]
        exact hin j List.mem_cons_self
      · rw [hframe j heq]
        exact hout j (fun hmem => (List.mem_cons.mp hmem).elim heq hj)

theorem meets_of_fields (hp : protocol ≠ .messages) (hnodup : indices.Nodup)
    (h : (e.fields report protocol indices).incomplete = false) :
    e.incomplete = false ∧ ∀ i ∈ indices, (e.counters i).Meets (report i) := by
  induction indices generalizing e with
  | nil => exact ⟨h, fun i hi => by cases hi⟩
  | cons i is ih =>
    obtain ⟨hi, his⟩ := List.nodup_cons.mp hnodup
    obtain ⟨hfield, hmeets⟩ := ih (e := e.field i (report i) protocol) his h
    have hmeet : (e.counters i).Meets (report i) := by
      by_contra hnot
      rw [field_of_not_meets hp hnot] at hfield
      cases hfield
    rw [field_of_meets hmeet] at hfield hmeets
    refine ⟨hfield, fun j hj => ?_⟩
    cases List.mem_cons.mp hj with
    | inl heq => rw [heq]; exact hmeet
    | inr hj =>
      have hframe := hmeets j hj
      rwa [show (e.setCounter i _).counters j = e.counters j from
        Function.update_of_ne (fun heq : j = i => hi (heq ▸ hj)) _ _] at hframe

/-! ## The shape of an object -/

theorem hasUnknown_eq_false {object : List (String × Json)} {known : List String}
    (hnodup : (IndexMap.keys object).Nodup) :
    hasUnknown object known = false ↔ ∀ e ∈ object, e.1 ∈ known := by
  unfold hasUnknown
  rw [Bool.or_eq_false_iff, decide_eq_false_iff_not, List.any_eq_false, not_lt]
  simp only [decide_not, Bool.not_eq_true', decide_eq_false_iff_not, not_not]
  refine ⟨And.right, fun h => ⟨?_, h⟩⟩
  have hsubset : IndexMap.keys object ⊆ known := by
    intro k hk
    obtain ⟨e, he, rfl⟩ := List.mem_map.mp hk
    exact h e he
  have hlength : (IndexMap.keys object).length = object.length := List.length_map _
  rw [← hlength]
  exact (hnodup.subperm hsubset).length_le

theorem hasUnknown_of_mem {object : List (String × Json)} {known : List String}
    {member : String × Json} (hm : member ∈ object) (hunknown : member.1 ∉ known) :
    hasUnknown object known = true := by
  unfold hasUnknown
  rw [Bool.or_eq_true, List.any_eq_true]
  exact Or.inr ⟨member, hm, by simpa using hunknown⟩

variable {raw : Option Json} {details : List (String × Fin 5)}

theorem details_of_known (hdistinct : ∀ v, raw = some v → DistinctNames v)
    (h : ∀ v, raw = some v → KnownObject v (details.map Prod.fst)) :
    e.details raw details protocol =
      details.foldl (fun e d => e.field d.2 (raw.bind (·.get d.1)) protocol) e := by
  cases raw with
  | none =>
    show e = _
    induction details with
    | nil => rfl
    | cons d details ih => exact ih (fun v hv => by cases hv)
  | some v =>
    obtain ⟨object, rfl, hnames⟩ := h v rfl
    have hknown : hasUnknown object (details.map Prod.fst) = false :=
      (hasUnknown_eq_false (hdistinct _ rfl object rfl)).mpr hnames
    unfold Evidence.details
    simp only [Json.asObject, hknown, Bool.false_eq_true, if_false]
    rfl

theorem details_of_not_known {v : Json} (hv : raw = some v)
    (h : ¬KnownObject v (details.map Prod.fst)) :
    (e.details raw details protocol).incomplete = true := by
  subst hv
  unfold Evidence.details
  cases v with
  | object object =>
    have hnames : ∃ member ∈ object, member.1 ∉ details.map Prod.fst := by
      by_contra hall
      refine h ⟨object, rfl, fun member hm => ?_⟩
      by_contra hunknown
      exact hall ⟨member, hm, hunknown⟩
    obtain ⟨member, hm, hunknown⟩ := hnames
    simp only [Json.asObject, hasUnknown_of_mem hm hunknown, if_true]
    rfl
  | _ => rfl

/-- What keeps `incomplete` set was entered without it, if it is left so. -/
theorem complete_of_latch {f : Evidence → Evidence}
    (hf : ∀ e, e.incomplete = true → (f e).incomplete = true)
    (h : (f e).incomplete = false) : e.incomplete = false := by
  by_contra hnot
  rw [Bool.not_eq_false] at hnot
  rw [hf e hnot] at h
  cases h

variable {o : Observation} {object : List (String × Json)}

/-- **A well-formed object is one reading of every counter**, in whichever
container it stands. -/
theorem observeObject_of_wellFormed (hp : o.protocol ≠ .messages) (hd : o.Distinct)
    (hw : o.WellFormed) (hobject : o.raw = .object object) :
    e.observeObject o.protocol object =
      (e.fields o.report o.protocol [0, 1, 2, 3, 4]).observeTotal o.total := by
  have hget : ∀ name, IndexMap.get object name = o.raw.get name := by
    intro name
    rw [hobject]
    rfl
  have hnames : hasUnknown object o.names = false := by
    obtain ⟨object', heq, hknown⟩ := hw.names
    rw [hobject] at heq
    obtain rfl := Json.object.inj heq
    exact (hasUnknown_eq_false (hd.names object hobject)).mpr hknown
  have hinput := hw.details _ List.mem_cons_self
  have houtput := hw.details _ (List.mem_cons_of_mem _ List.mem_cons_self)
  unfold observeObject
  simp only [if_neg hp, hget]
  rw [details_of_known (hd.details _) houtput, details_of_known (hd.details _) hinput]
  unfold knownKeys
  rw [show hasUnknown object [_, _, _, _, _] = false from hnames]
  rfl

theorem wellFormed_of_observeObject (hp : o.protocol ≠ .messages)
    (hobject : o.raw = .object object)
    (h : (e.observeObject o.protocol object).incomplete = false) : o.WellFormed := by
  have hget : ∀ name, IndexMap.get object name = o.raw.get name := by
    intro name
    rw [hobject]
    rfl
  unfold observeObject at h
  simp only [if_neg hp, hget] at h
  have hkeys := complete_of_latch (fun e => incomplete_observeTotal _) h
  have houtput := complete_of_latch (fun e => incomplete_knownKeys _ _) hkeys
  have hinput := complete_of_latch (fun e => incomplete_details _ _ _) houtput
  refine ⟨⟨object, hobject, fun member hm => ?_⟩, fun c hc v hv => ?_⟩
  · by_contra hunknown
    unfold knownKeys at hkeys
    rw [show hasUnknown object [_, _, _, _, _] = true from hasUnknown_of_mem hm hunknown] at hkeys
    cases hkeys
  · by_contra hnot
    cases List.mem_cons.mp hc with
    | inl heq =>
      subst heq
      rw [details_of_not_known hv (by exact hnot)] at hinput
      cases hinput
    | inr hc =>
      obtain rfl := List.mem_singleton.mp hc
      rw [details_of_not_known hv (by exact hnot)] at houtput
      cases houtput

/-! ## The total -/

/-- A total that is the sum of the input and the output, as far as the three
are known. -/
def Sums (total input output : Counter) : Prop :=
  ∀ t a b, total = .known t → input = .known a → output = .known b → a + b = t

def reportTotal (raw : Option Json) (total : Counter) : Counter :=
  match raw with
  | none => total
  | some raw =>
    match number raw, total with
    | some value, .absent => .known value
    | some value, .known previous => if value = previous then .known value else .invalid
    | _, _ => .invalid

/-- The three are known, and the relation fails. -/
def contradicts (total input output : Counter) : Bool :=
  total.value.any (fun t => input.value.any (fun a => output.value.any (fun b => a + b != t)))

def checked (total input output : Counter) (e : Evidence) : Evidence :=
  if total = .invalid then ({ e with total := .invalid } : Evidence).markIncomplete
  else if contradicts total input output then
    ({ e with total := .invalid } : Evidence).markIncomplete
  else { e with total }

theorem observeTotal_eq : e.observeTotal raw =
    e.checked (reportTotal raw e.total) (e.counters 0) (e.counters 1) := by
  unfold observeTotal reportTotal checked contradicts
  cases raw with
  | none =>
    cases e.total <;> cases e.counters 0 <;> cases e.counters 1 <;> simp [Counter.value]
    grind
  | some raw =>
    cases number raw <;> cases e.total <;> cases e.counters 0 <;> cases e.counters 1 <;>
      simp [Counter.value] <;> grind

theorem contradicts_iff {input output : Counter} :
    contradicts total input output = true ↔ ¬Sums total input output := by
  unfold contradicts Sums
  cases total <;> cases input <;> cases output <;> simp [Counter.value]

theorem reportTotal_of_meets (h : total.Meets raw) :
    reportTotal raw total = total.after raw := by
  cases raw with
  | none => rfl
  | some v =>
    obtain ⟨n, hn, hc⟩ := h v rfl
    unfold reportTotal Counter.after
    simp only [Option.bind_some, hn]
    cases hc with
    | inl habsent => rw [habsent]
    | inr hknown => rw [hknown]; simp only [if_true]

theorem reportTotal_of_not_meets (h : ¬total.Meets raw) :
    reportTotal raw total = .invalid := by
  cases raw with
  | none => exact absurd (fun v hv => by cases hv) h
  | some v =>
    unfold reportTotal
    cases hn : number v with
    | none => simp only [hn]
    | some n =>
      simp only [hn]
      cases total with
      | absent =>
        refine absurd (fun v' hv' => ⟨n, ?_, Or.inl rfl⟩) h
        rw [← Option.some.inj hv', hn]
      | invalid => rfl
      | known m =>
        refine if_neg ?_
        rintro rfl
        refine h (fun v' hv' => ⟨n, ?_, Or.inr rfl⟩)
        rw [← Option.some.inj hv', hn]

theorem checked_of_sums {input output : Counter} (hvalid : total ≠ .invalid)
    (h : Sums total input output) : e.checked total input output = { e with total } := by
  unfold checked
  rw [if_neg hvalid, if_neg (fun hnot => contradicts_iff.mp hnot h)]

theorem sums_of_checked {input output : Counter}
    (h : (e.checked total input output).incomplete = false) :
    e.incomplete = false ∧ total ≠ .invalid ∧ Sums total input output := by
  unfold checked at h
  split at h
  · cases h
  · next hvalid =>
    split at h
    · cases h
    · next hsums =>
      rw [contradicts_iff, not_not] at hsums
      exact ⟨h, hvalid, hsums⟩

/-! ## One observation -/

/-- **An observation the evidence takes** without becoming incomplete. -/
structure Fits (e : Evidence) (o : Observation) : Prop where
  bounded : e.observations < maxObservations
  wellFormed : o.WellFormed
  counters : ∀ i, (e.counters i).Meets (o.report i)
  total : e.total.Meets o.total
  sums : Sums (e.total.after o.total) ((e.counters 0).after (o.report 0))
    ((e.counters 1).after (o.report 1))

theorem mem_counters : ∀ i : Fin 5, i ∈ ([0, 1, 2, 3, 4] : List (Fin 5)) := by
  decide

theorem Meets_valid {counter : Counter} (hvalid : counter ≠ .invalid) (value : Option Json) :
    counter.after value ≠ .invalid := by
  unfold Counter.after
  split
  · simp
  · exact hvalid

theorem observe_of_fits (hp : o.protocol ≠ .messages) (hd : o.Distinct)
    (hvalid : e.total ≠ .invalid) (h : e.Fits o) :
    e.observe o.protocol o.raw =
      { source := nextSource o.protocol e.source
        counters := fun i => (e.counters i).after (o.report i)
        total := e.total.after o.total
        observations := e.observations + 1
        incomplete := e.incomplete } := by
  obtain ⟨object, hobject, -⟩ := h.wellFormed.names
  unfold observe
  rw [if_neg (not_le.mpr h.bounded)]
  simp only [hobject, Json.asObject]
  rw [observeObject_of_wellFormed hp hd h.wellFormed hobject,
    fields_of_meets (by decide) (fun i _ => by exact h.counters i) (fun i _ => rfl)
      (fun i hi => absurd (mem_counters i) hi), observeTotal_eq, reportTotal_of_meets h.total]
  exact checked_of_sums (Meets_valid hvalid _) h.sums

theorem fits_of_observe (hp : o.protocol ≠ .messages) (hd : o.Distinct)
    (h : (e.observe o.protocol o.raw).incomplete = false) : e.incomplete = false ∧ e.Fits o := by
  have he := complete_of_latch (fun e => incomplete_observe _ _) h
  unfold observe at h
  by_cases hbound : maxObservations ≤ e.observations
  · rw [if_pos hbound] at h
    cases h
  rw [if_neg hbound] at h
  cases hobject : o.raw with
  | object object =>
    simp only [hobject, Json.asObject] at h
    have hw := wellFormed_of_observeObject hp hobject h
    rw [observeObject_of_wellFormed hp hd hw hobject, observeTotal_eq] at h
    obtain ⟨hfields, hvalid, hsums⟩ := sums_of_checked h
    obtain ⟨-, hmeets⟩ := meets_of_fields hp (by decide) hfields
    have hcounters : ∀ i, (e.counters i).Meets (o.report i) := fun i => hmeets i (mem_counters i)
    rw [fields_of_meets (by decide) hmeets (fun i _ => rfl)
      (fun i hi => absurd (mem_counters i) hi)] at hvalid hsums
    have htotal : e.total.Meets o.total := by
      by_contra hnot
      exact hvalid (reportTotal_of_not_meets hnot)
    rw [reportTotal_of_meets htotal] at hsums
    exact ⟨he, not_le.mp hbound, hw, hcounters, htotal, hsums⟩
  | _ =>
    simp only [hobject, Json.asObject] at h
    cases h

end Evidence

/-! ## A run of observations -/

/-- **Evidence that holds what the observations report**, and is not
incomplete. -/
structure Tracks (e : Evidence) (os : List Observation) : Prop where
  observations : e.observations = os.length
  counters : ∀ i, (e.counters i).Follows os (·.report i)
  total : e.total.Follows os (·.total)
  incomplete : e.incomplete = false

/-- **Observations that contradict neither each other nor themselves.** -/
structure Consistent (os : List Observation) : Prop where
  bounded : os.length ≤ maxObservations
  wellFormed : ∀ o ∈ os, o.WellFormed
  inRange : ∀ o ∈ os, ∀ i v, o.report i = some v → (number v).isSome
  agree : ∀ i n m, Reports os (·.report i) n → Reports os (·.report i) m → n = m
  totalInRange : ∀ o ∈ os, ∀ v, o.total = some v → (number v).isSome
  totalAgree : ∀ n m, Reports os (·.total) n → Reports os (·.total) m → n = m
  sums : ∀ t a b, Reports os (·.total) t → Reports os (·.report 0) a → Reports os (·.report 1) b →
    a + b = t

theorem tracks_nil : Tracks {} [] := by
  have hnone : ∀ f n, ¬Reports [] f n := by
    rintro f n ⟨o, ho, -⟩
    cases ho
  exact ⟨rfl, fun i => ⟨by simp, fun n => by simp [hnone]⟩,
    ⟨by simp, fun n => by simp [hnone]⟩, rfl⟩

variable {e : Evidence} {os : List Observation} {o : Observation}

theorem Tracks.append (ht : Tracks e os) (hp : o.protocol ≠ .messages) (hd : o.Distinct)
    (h : e.Fits o) : Tracks (e.observe o.protocol o.raw) (os ++ [o]) := by
  rw [observe_of_fits hp hd ht.total.valid h]
  refine ⟨?_, fun i => (ht.counters i).append (h.counters i), ht.total.append h.total,
    ht.incomplete⟩
  rw [List.length_append, List.length_singleton, ← ht.observations]

theorem reports_left {f : Observation → Option Json} {n : ℕ} (h : Reports os f n) :
    Reports (os ++ [o]) f n :=
  reports_append.mpr (Or.inl h)

theorem Consistent.left (h : Consistent (os ++ [o])) : Consistent os where
  bounded := by
    have := h.bounded
    rw [List.length_append, List.length_singleton] at this
    exact le_trans (Nat.le_succ _) this
  wellFormed o ho := h.wellFormed o (List.mem_append_left _ ho)
  inRange o ho := h.inRange o (List.mem_append_left _ ho)
  agree i n m hn hm := h.agree i n m (reports_left hn) (reports_left hm)
  totalInRange o ho := h.totalInRange o (List.mem_append_left _ ho)
  totalAgree n m hn hm := h.totalAgree n m (reports_left hn) (reports_left hm)
  sums t a b ht ha hb := h.sums t a b (reports_left ht) (reports_left ha) (reports_left hb)

section

variable {counter : Counter} {f : Observation → Option Json} (hf : counter.Follows os f)

include hf

theorem Counter.Follows.meets (hrange : ∀ v, f o = some v → (number v).isSome)
    (hagree : ∀ n m, Reports (os ++ [o]) f n → Reports (os ++ [o]) f m → n = m) :
    counter.Meets (f o) := by
  rw [hf.meets_iff]
  intro v hv
  obtain ⟨n, hn⟩ := Option.isSome_iff_exists.mp (hrange v hv)
  refine ⟨n, hn, fun m hm => hagree m n (reports_left hm) (reports_append.mpr (Or.inr ?_))⟩
  rw [hv, Option.bind_some, hn]

theorem Counter.Follows.agree (hmeets : counter.Meets (f o)) {n m : ℕ}
    (hn : Reports (os ++ [o]) f n) (hm : Reports (os ++ [o]) f m) : n = m := by
  have hafter := hf.append hmeets
  have hknown := (hafter.known n).mpr hn
  rw [(hafter.known m).mpr hm] at hknown
  exact (Counter.known.inj hknown).symm

end

theorem Counter.Meets.isSome {counter : Counter} {value : Option Json} (h : counter.Meets value)
    {v : Json} (hv : value = some v) : (number v).isSome := by
  obtain ⟨n, hn, -⟩ := h v hv
  rw [hn]
  rfl

/-- **One observation more is consistent exactly if it fits.** -/
theorem consistent_append_iff (ht : Tracks e os) :
    Consistent (os ++ [o]) ↔ Consistent os ∧ e.Fits o := by
  constructor
  · intro h
    have ho : o ∈ os ++ [o] := List.mem_append_right _ List.mem_cons_self
    have hcounters : ∀ i, (e.counters i).Meets (o.report i) := fun i =>
      (ht.counters i).meets (h.inRange o ho i) (h.agree i)
    have htotal : e.total.Meets o.total := ht.total.meets (h.totalInRange o ho) h.totalAgree
    refine ⟨h.left, ?_, h.wellFormed o ho, hcounters, htotal, fun t a b hkt hka hkb => ?_⟩
    · have := h.bounded
      rw [List.length_append, List.length_singleton, ← ht.observations] at this
      exact this
    · exact h.sums t a b (((ht.total.append htotal).known t).mp hkt)
        ((((ht.counters 0).append (hcounters 0)).known a).mp hka)
        ((((ht.counters 1).append (hcounters 1)).known b).mp hkb)
  · rintro ⟨h, hfits⟩
    have hmem : ∀ {P : Observation → Prop}, (∀ x ∈ os, P x) → P o → ∀ x ∈ os ++ [o], P x := by
      intro P hall ho x hx
      cases List.mem_append.mp hx with
      | inl hx => exact hall x hx
      | inr hx => rw [List.mem_singleton.mp hx]; exact ho
    refine ⟨?_, hmem h.wellFormed hfits.wellFormed,
      hmem h.inRange (fun i v hv => (hfits.counters i).isSome hv),
      fun i n m hn hm => (ht.counters i).agree (hfits.counters i) hn hm,
      hmem h.totalInRange (fun v hv => hfits.total.isSome hv),
      fun n m hn hm => ht.total.agree hfits.total hn hm, fun t a b hrt hra hrb => ?_⟩
    · rw [List.length_append, List.length_singleton, ← ht.observations]
      exact hfits.bounded
    · exact hfits.sums t a b (((ht.total.append hfits.total).known t).mpr hrt)
        ((((ht.counters 0).append (hfits.counters 0)).known a).mpr hra)
        ((((ht.counters 1).append (hfits.counters 1)).known b).mpr hrb)

/-- **The evidence follows consistent observations.** -/
theorem tracks_observeAll (hp : ∀ o ∈ os, o.protocol ≠ .messages) (hd : ∀ o ∈ os, o.Distinct)
    (h : Consistent os) : Tracks (observeAll os) os := by
  induction os using List.reverseRecOn with
  | nil => exact tracks_nil
  | append_singleton os o ih =>
    have hleft {P : Observation → Prop} (hall : ∀ x ∈ os ++ [o], P x) : ∀ x ∈ os, P x :=
      fun x hx => hall x (List.mem_append_left _ hx)
    have ho : o ∈ os ++ [o] := List.mem_append_right _ List.mem_cons_self
    have htracks := ih (hleft hp) (hleft hd) h.left
    rw [observeAll_append]
    exact htracks.append (hp o ho) (hd o ho) ((consistent_append_iff htracks).mp h).2

/-- Observations that leave the evidence complete are consistent. -/
theorem consistent_observeAll (hp : ∀ o ∈ os, o.protocol ≠ .messages)
    (hd : ∀ o ∈ os, o.Distinct) (h : (observeAll os).incomplete = false) : Consistent os := by
  induction os using List.reverseRecOn with
  | nil =>
    have hnone : ∀ f n, ¬Reports [] f n := by
      rintro f n ⟨o, ho, -⟩
      cases ho
    exact ⟨Nat.zero_le _, by simp, by simp, fun i n m hn => absurd hn (hnone _ _), by simp,
      fun n m hn => absurd hn (hnone _ _), fun t a b hrt => absurd hrt (hnone _ _)⟩
  | append_singleton os o ih =>
    have hleft {P : Observation → Prop} (hall : ∀ x ∈ os ++ [o], P x) : ∀ x ∈ os, P x :=
      fun x hx => hall x (List.mem_append_left _ hx)
    have ho : o ∈ os ++ [o] := List.mem_append_right _ List.mem_cons_self
    rw [observeAll_append] at h
    obtain ⟨hincomplete, hfits⟩ := fits_of_observe (hp o ho) (hd o ho) h
    have hos := ih (hleft hp) (hleft hd) hincomplete
    exact (consistent_append_iff (tracks_observeAll (hleft hp) (hleft hd) hos)).mpr ⟨hos, hfits⟩

/-! ## The source -/

namespace Evidence

@[simp] theorem source_field (i : Fin 5) (value : Option Json) (protocol : Protocol) :
    (e.field i value protocol).source = e.source := by
  unfold field
  repeat' split
  all_goals rfl

theorem source_foldl {α : Type} (f : Evidence → α → Evidence)
    (hf : ∀ e x, (f e x).source = e.source) (xs : List α) : (xs.foldl f e).source = e.source := by
  induction xs generalizing e with
  | nil => rfl
  | cons x xs ih => rw [List.foldl_cons, ih, hf]

@[simp] theorem source_details (raw : Option Json) (fields : List (String × Fin 5))
    (protocol : Protocol) : (e.details raw fields protocol).source = e.source := by
  unfold details
  split
  · rfl
  · split
    · exact source_foldl (fun e d => e.setCounter d.2 .invalid) (fun e d => rfl) fields
    · dsimp only
      split
      · exact source_foldl _ (fun e d => source_field _ _ _) fields
      · exact source_foldl _ (fun e d => source_field _ _ _) fields

@[simp] theorem source_knownKeys (object : List (String × Json)) (known : List String) :
    (e.knownKeys object known).source = e.source := by
  unfold knownKeys
  split <;> rfl

@[simp] theorem source_observeTotal (raw : Option Json) :
    (e.observeTotal raw).source = e.source := by
  have hset : ∀ total, (if total = Counter.invalid then ({ e with total } : Evidence).markIncomplete
      else { e with total }).source = e.source := by
    intro total
    split <;> rfl
  exact hset _

/-- The source takes the protocol of every observation within the bound. -/
theorem source_observe (h : (e.observe o.protocol o.raw).incomplete = false) :
    (e.observe o.protocol o.raw).source = nextSource o.protocol e.source := by
  unfold observe at h ⊢
  split at h
  · cases h
  next hbound =>
    rw [if_neg hbound]
    split
    · rfl
    · unfold observeObject
      dsimp only
      split <;> simp

theorem counters_field_of_ne {i j : Fin 5} (h : j ≠ i) (value : Option Json) (protocol : Protocol) :
    (e.field i value protocol).counters j = e.counters j := by
  have hset : ∀ counter, (e.setCounter i counter).counters j = e.counters j := fun counter =>
    Function.update_of_ne h _ _
  unfold field
  repeat' split
  all_goals first | rfl | exact hset _

theorem reasoning_observe (hp : o.protocol = .messages) :
    (e.observe o.protocol o.raw).counters 4 = e.counters 4 := by
  have hkeys : ∀ (e : Evidence) object known, (e.knownKeys object known).counters = e.counters := by
    intro e object known
    unfold knownKeys
    split <;> rfl
  rw [hp]
  unfold observe
  split
  · rfl
  · dsimp only
    split
    · rfl
    · unfold observeObject
      dsimp only
      rw [if_pos rfl, hkeys, counters_field_of_ne (by decide), counters_field_of_ne (by decide),
        counters_field_of_ne (by decide), counters_field_of_ne (by decide)]

end Evidence

theorem reasoning_observeAll (h : ∀ o ∈ os, o.protocol = .messages) :
    (observeAll os).counters 4 = .absent := by
  induction os using List.reverseRecOn with
  | nil => rfl
  | append_singleton os o ih =>
    rw [observeAll_append, reasoning_observe (h o (List.mem_append_right _ List.mem_cons_self)),
      ih (fun x hx => h x (List.mem_append_left _ hx))]

theorem source_observeAll (h : (observeAll os).incomplete = false) :
    (observeAll os).source = os.foldl (fun source o => nextSource o.protocol source) .none := by
  induction os using List.reverseRecOn with
  | nil => rfl
  | append_singleton os o ih =>
    rw [observeAll_append] at h ⊢
    rw [source_observe h, ih (complete_of_latch (fun e => incomplete_observe _ _) h),
      List.foldl_append]
    rfl

theorem sources_eq_provider {protocol : Protocol}
    (h : os.foldl (fun source o => nextSource o.protocol source) .none = .provider protocol) :
    ∀ o ∈ os, o.protocol = protocol := by
  induction os using List.reverseRecOn generalizing protocol with
  | nil => simp
  | append_singleton os o ih =>
    rw [List.foldl_append, List.foldl_cons, List.foldl_nil] at h
    intro x hx
    cases hs : os.foldl (fun source o => nextSource o.protocol source) .none with
    | none =>
      have hos : os = [] := by
        cases os using List.reverseRecOn with
        | nil => rfl
        | append_singleton os o =>
          rw [List.foldl_append, List.foldl_cons, List.foldl_nil] at hs
          unfold nextSource at hs
          repeat' split at hs
          all_goals cases hs
      subst hos
      obtain rfl := List.mem_singleton.mp hx
      exact Source.provider.inj h
    | provider previous =>
      rw [hs] at h
      change (if previous = o.protocol then Source.provider previous else .conflict) = _ at h
      split at h
      · next hsame =>
        obtain rfl := Source.provider.inj h
        cases List.mem_append.mp hx with
        | inl hx => exact ih hs x hx
        | inr hx => rw [List.mem_singleton.mp hx, hsame]
      · cases h
    | conflict =>
      rw [hs] at h
      cases h

theorem foldl_nextSource {protocol : Protocol} (h : ∀ o ∈ os, o.protocol = protocol) :
    os.foldl (fun source o => nextSource o.protocol source) (.provider protocol) =
      .provider protocol := by
  induction os with
  | nil => rfl
  | cons o os ih =>
    rw [List.foldl_cons, h o List.mem_cons_self,
      show nextSource protocol (.provider protocol) = .provider protocol from if_pos rfl]
    exact ih (fun x hx => h x (List.mem_cons_of_mem _ hx))

/-! ## The certificate -/

/-- **Observations that certify a complete usage.** Every condition but the
first is about which objects occur, not about where. -/
structure Certified (os : List Observation) : Prop where
  bounded : os.length ≤ maxObservations
  protocol : ∃ protocol, protocol ≠ .messages ∧ ∀ o ∈ os, o.protocol = protocol
  wellFormed : ∀ o ∈ os, o.WellFormed
  inRange : ∀ o ∈ os, ∀ i v, o.report i = some v → (number v).isSome
  agree : ∀ o ∈ os, ∀ o' ∈ os, ∀ i n m, (o.report i).bind number = some n →
    (o'.report i).bind number = some m → n = m
  reported : ∀ i, ∃ n, Reports os (·.report i) n
  total : ∀ o ∈ os, ∀ v, o.total = some v → ∃ t, number v = some t ∧
    ∀ a b, Reports os (·.report 0) a → Reports os (·.report 1) b → t = a + b
  cache : ∀ a r w, Reports os (·.report 0) a → Reports os (·.report 2) r →
    Reports os (·.report 3) w → r + w ≤ a
  reasoning : ∀ b r, Reports os (·.report 1) b → Reports os (·.report 4) r → r ≤ b

theorem Certified.consistent (h : Certified os) : Consistent os := by
  obtain ⟨a, ha⟩ := h.reported 0
  obtain ⟨b, hb⟩ := h.reported 1
  have htotal : ∀ t, Reports os (·.total) t → t = a + b := by
    rintro t ⟨o, ho, ht⟩
    obtain ⟨v, hv, hn⟩ := Option.bind_eq_some_iff.mp ht
    obtain ⟨t', ht', hsum⟩ := h.total o ho v hv
    rw [hn] at ht'
    rw [Option.some.inj ht', hsum a b ha hb]
  have hagree : ∀ i n m, Reports os (·.report i) n → Reports os (·.report i) m → n = m := by
    rintro i n m ⟨o, ho, hn⟩ ⟨o', ho', hm⟩
    exact h.agree o ho o' ho' i n m hn hm
  refine ⟨h.bounded, h.wellFormed, h.inRange, hagree, fun o ho v hv => ?_, fun n m hn hm => ?_,
    fun t x y ht hx hy => ?_⟩
  · obtain ⟨t, ht, -⟩ := h.total o ho v hv
    rw [ht]
    rfl
  · rw [htotal n hn, htotal m hm]
  · rw [htotal t ht, hagree 0 x a hx ha, hagree 1 y b hy hb]

theorem Certified.perm {os' : List Observation} (hperm : os.Perm os') (h : Certified os) :
    Certified os' := by
  have hmem : ∀ o, o ∈ os' ↔ o ∈ os := fun o => hperm.mem_iff.symm
  obtain ⟨hbounded, hprotocol, hwell, hrange, hagree, hreported, htotal, hcache, hreasoning⟩ := h
  constructor
  · rw [← hperm.length_eq]
    exact hbounded
  all_goals
    try unfold Reports
    simp only [hmem]
    assumption

/-! ## The projection -/

namespace Evidence

/-- Complete evidence of a protocol with inclusive input projects a complete
usage if every counter is known and none contradicts another. -/
theorem complete_project_iff {protocol : Protocol} (hsource : e.source = .provider protocol)
    (hp : protocol ≠ .messages) (hincomplete : e.incomplete = false) (htotal : e.total ≠ .invalid) :
    e.project.usage.complete = true ↔ cacheExceeds e.counted = false ∧
      reasoningExceeds e.counted = false ∧ e.counted.toList.all Option.isSome = true := by
  have hinclusive : e.inclusive e.counted = e.counted := by
    unfold inclusive
    rw [hsource]
    exact if_neg (fun heq => hp (Source.provider.inj heq))
  unfold project
  rw [hinclusive, hincomplete, Bool.not_false]
  unfold consistent
  cases hcache : cacheExceeds e.counted with
  | true =>
    have hfalse : ∀ q : Quantities, (if reasoningExceeds q then
        ({ q with output := none, reasoning := none }, false) else (q, false)).2 = false := by
      intro q
      split <;> rfl
    simp [usage, hfalse, htotal]
  | false =>
    cases hreasoning : reasoningExceeds e.counted with
    | true => simp [usage, hreasoning, htotal]
    | false =>
      simp only [hreasoning, htotal, if_false, Bool.false_eq_true, usage, Bool.true_and, true_and,
        Bool.and_eq_true, decide_eq_true_eq]
      have hprovider : e.isProvider = true := by
        unfold isProvider
        rw [hsource]
      constructor
      · rintro ⟨hprovenance, hall⟩
        rw [hprovenance] at hall
        exact hall
      · intro hall
        have hprovenance : e.provenance = .provider := by
          refine if_pos ⟨hprovider, ?_⟩
          rw [List.any_eq_true]
          exact ⟨e.counted.input, List.mem_cons_self,
            List.all_eq_true.mp hall _ List.mem_cons_self⟩
        rw [hprovenance]
        exact ⟨rfl, hall⟩

theorem counted_all_iff :
    e.counted.toList.all Option.isSome = true ↔ ∀ i, ∃ n, e.counters i = .known n := by
  have hvalue : ∀ counter : Counter, counter.value.isSome = true ↔ ∃ n, counter = .known n := by
    intro counter
    cases counter <;> simp [Counter.value]
  simp only [counted, Quantities.toList, List.all_cons, List.all_nil, Bool.and_true,
    Bool.and_eq_true, hvalue]
  constructor
  · rintro ⟨h0, h1, h2, h3, h4⟩ i
    match i with
    | 0 => exact h0
    | 1 => exact h1
    | 2 => exact h2
    | 3 => exact h3
    | 4 => exact h4
  · intro h
    exact ⟨h 0, h 1, h 2, h 3, h 4⟩

theorem complete_project_of_reasoning (h : e.counters 4 = .absent) :
    e.project.usage.complete = false := by
  have hnone : (e.consistent (e.inclusive e.counted) (!e.incomplete)).1.reasoning = none := by
    have hcounted : (e.inclusive e.counted).reasoning = none := by
      unfold inclusive
      split <;> simp [counted, h, Counter.value]
    unfold consistent
    dsimp only
    split <;> split <;> split <;> first | rfl | exact hcounted
  unfold project
  dsimp only
  split
  · simp [usage, Quantities.none, Quantities.toList]
  · simp [usage, Quantities.toList, hnone]

theorem number_le {v : Json} {n : ℕ} (h : number v = some n) : n ≤ maxInteger := by
  unfold number at h
  rw [Option.filter_eq_some_iff] at h
  exact of_decide_eq_true h.2

end Evidence

theorem reports_le {f : Observation → Option Json} {n : ℕ} (h : Reports os f n) :
    n ≤ maxInteger := by
  obtain ⟨o, -, hn⟩ := h
  obtain ⟨v, -, hv⟩ := Option.bind_eq_some_iff.mp hn
  exact number_le hv

/-- **What tracked evidence projects** is read off the reports. -/
theorem complete_project_of_tracks {protocol : Protocol} (hsource : e.source = .provider protocol)
    (hp : protocol ≠ .messages) (ht : Tracks e os) :
    e.project.usage.complete = true ↔ ∃ c : Fin 5 → ℕ,
      (∀ i, Reports os (·.report i) (c i)) ∧ c 2 + c 3 ≤ c 0 ∧ c 4 ≤ c 1 := by
  rw [complete_project_iff hsource hp ht.incomplete ht.total.valid, counted_all_iff]
  have hexceeds : ∀ c : Fin 5 → ℕ, (∀ i, e.counters i = .known (c i)) →
      (cacheExceeds e.counted = false ↔ c 2 + c 3 ≤ c 0) ∧
      (reasoningExceeds e.counted = false ↔ c 4 ≤ c 1) := by
    intro c hc
    have hread := reports_le (((ht.counters 2).known _).mp (hc 2))
    have hwrite := reports_le (((ht.counters 3).known _).mp (hc 3))
    have hsum : c 2 + c 3 < 2 ^ 64 := by
      unfold maxInteger at hread hwrite
      omega
    constructor
    · unfold cacheExceeds
      simp only [counted, hc, Counter.value]
      rw [show checkedAdd (c 2) (c 3) = some (c 2 + c 3) from if_pos hsum, Option.all_some,
        decide_eq_false_iff_not, not_lt]
    · simp [reasoningExceeds, counted, hc, Counter.value]
  constructor
  · rintro ⟨hcache, hreasoning, hall⟩
    choose c hc using hall
    exact ⟨c, fun i => ((ht.counters i).known _).mp (hc i), ((hexceeds c hc).1).mp hcache,
      ((hexceeds c hc).2).mp hreasoning⟩
  · rintro ⟨c, hreports, hcache, hreasoning⟩
    have hc : ∀ i, e.counters i = .known (c i) := fun i =>
      ((ht.counters i).known _).mpr (hreports i)
    exact ⟨((hexceeds c hc).1).mpr hcache, ((hexceeds c hc).2).mpr hreasoning, fun i => ⟨c i, hc i⟩⟩

theorem Certified.complete (hd : ∀ o ∈ os, o.Distinct) (h : Certified os) :
    (observeAll os).project.usage.complete = true := by
  obtain ⟨protocol, hp, hall⟩ := h.protocol
  have htracks := tracks_observeAll (fun o ho => by rw [hall o ho]; exact hp) hd h.consistent
  have hsource : (observeAll os).source = .provider protocol := by
    rw [source_observeAll htracks.incomplete]
    cases os with
    | nil =>
      obtain ⟨n, o, ho, -⟩ := h.reported 0
      cases ho
    | cons o os =>
      rw [List.foldl_cons, hall o List.mem_cons_self]
      exact foldl_nextSource (fun x hx => hall x (List.mem_cons_of_mem _ hx))
  choose c hc using h.reported
  exact (complete_project_of_tracks hsource hp htracks).mpr
    ⟨c, hc, h.cache _ _ _ (hc 0) (hc 2) (hc 3), h.reasoning _ _ (hc 1) (hc 4)⟩

theorem certified_of_complete (hd : ∀ o ∈ os, o.Distinct)
    (h : (observeAll os).project.usage.complete = true) : Certified os := by
  have hincomplete : (observeAll os).incomplete = false := by
    by_contra hnot
    rw [complete_project (Bool.not_eq_false _ ▸ hnot)] at h
    cases h
  obtain ⟨protocol, hsource⟩ : ∃ protocol, (observeAll os).source = .provider protocol := by
    cases hs : (observeAll os).source with
    | provider protocol => exact ⟨protocol, rfl⟩
    | _ =>
      exfalso
      have hprovenance : (observeAll os).provenance = .unknown := by
        refine if_neg ?_
        simp [isProvider, hs]
      simp [project, usage, hprovenance] at h
  have hall : ∀ o ∈ os, o.protocol = protocol := by
    rw [source_observeAll hincomplete] at hsource
    exact sources_eq_provider hsource
  by_cases hmessages : protocol = .messages
  · subst hmessages
    exfalso
    rw [complete_project_of_reasoning (reasoning_observeAll hall)] at h
    cases h
  · have hp : ∀ o ∈ os, o.protocol ≠ .messages := fun o ho => by rw [hall o ho]; exact hmessages
    have hconsistent := consistent_observeAll hp hd hincomplete
    have htracks := tracks_observeAll hp hd hconsistent
    obtain ⟨c, hc, hcache, hreasoning⟩ :=
      (complete_project_of_tracks hsource hmessages htracks).mp h
    have hunique : ∀ i n, Reports os (·.report i) n → n = c i := fun i n hn =>
      hconsistent.agree i n (c i) hn (hc i)
    refine ⟨hconsistent.bounded, ⟨protocol, hmessages, hall⟩, hconsistent.wellFormed,
      hconsistent.inRange, fun o ho o' ho' i n m hn hm =>
        hconsistent.agree i n m ⟨o, ho, hn⟩ ⟨o', ho', hm⟩, fun i => ⟨c i, hc i⟩,
      fun o ho v hv => ?_, fun a r w ha hr hw => ?_, fun b r hb hr => ?_⟩
    · obtain ⟨t, ht⟩ := Option.isSome_iff_exists.mp (hconsistent.totalInRange o ho v hv)
      refine ⟨t, ht, fun a b ha hb => (hconsistent.sums t a b ⟨o, ho, ?_⟩ ha hb).symm⟩
      show o.total.bind number = some t
      rw [hv, Option.bind_some, ht]
    · rw [hunique 0 a ha, hunique 2 r hr, hunique 3 w hw]
      exact hcache
    · rw [hunique 1 b hb, hunique 4 r hr]
      exact hreasoning

/-- **Complete provider usage.** A run of observations projects a complete
usage exactly if it certifies one; so the order does not matter, and an object
that is malformed, out of range or contradicted is never made up for. -/
theorem complete_iff_certified (os : List Observation) (hd : ∀ o ∈ os, o.Distinct) :
    ((observeAll os).project.usage.complete = true ↔ Certified os) ∧
    (∀ os', os.Perm os' →
      (observeAll os').project.usage.complete = (observeAll os).project.usage.complete) ∧
    (∀ more, (∀ o ∈ more, o.Distinct) →
      (∃ o ∈ os, ¬o.WellFormed ∨ ∃ i v, o.report i = some v ∧ number v = none) ∨
        (∃ o ∈ os, ∃ o' ∈ os, ∃ i n m, (o.report i).bind number = some n ∧
          (o'.report i).bind number = some m ∧ n ≠ m) →
      (observeAll (os ++ more)).project.usage.complete = false) := by
  refine ⟨⟨certified_of_complete hd, Certified.complete hd⟩, fun os' hperm => ?_,
    fun more hmore hbad => ?_⟩
  · have hd' : ∀ o ∈ os', o.Distinct := fun o ho => hd o (hperm.mem_iff.mpr ho)
    rw [Bool.eq_iff_iff]
    constructor
    · exact fun h => ((certified_of_complete hd' h).perm hperm.symm).complete hd
    · exact fun h => ((certified_of_complete hd h).perm hperm).complete hd'
  · have hall : ∀ o ∈ os ++ more, o.Distinct := fun o ho =>
      (List.mem_append.mp ho).elim (hd o) (hmore o)
    by_contra hnot
    have h := certified_of_complete hall (Bool.not_eq_false _ ▸ hnot)
    have hleft : ∀ o ∈ os, o ∈ os ++ more := fun o ho => List.mem_append_left _ ho
    rcases hbad with ⟨o, ho, hill | ⟨i, v, hv, hnone⟩⟩ | ⟨o, ho, o', ho', i, n, m, hn, hm, hne⟩
    · exact hill (h.wellFormed o (hleft o ho))
    · have hsome := h.inRange o (hleft o ho) i v hv
      rw [hnone] at hsome
      cases hsome
    · exact hne (h.agree o (hleft o ho) o' (hleft o' ho') i n m hn hm)

def chatUsage : Observation where
  protocol := .chatCompletions
  raw := .object [("prompt_tokens", .number (.posInt 10)),
    ("completion_tokens", .number (.posInt 5)),
    ("prompt_tokens_details",
      .object [("cached_tokens", .number (.posInt 4)),
        ("cache_write_tokens", .number (.posInt 0))]),
    ("completion_tokens_details", .object [("reasoning_tokens", .number (.posInt 2))])]

theorem distinct_chatUsage : chatUsage.Distinct := by
  constructor
  · rintro fields hfields
    obtain rfl := Json.object.inj hfields
    decide
  · intro name v hv fields hfields
    subst hfields
    have hmem := IndexMap.mem_of_get_eq_some hv
    simp only [List.mem_cons, Prod.mk.injEq, reduceCtorEq, and_false, List.not_mem_nil, or_false,
      false_or, Json.object.injEq] at hmem
    obtain ⟨-, rfl⟩ | ⟨-, rfl⟩ := hmem
    · decide
    · decide

theorem complete_chatUsage : Certified [chatUsage, chatUsage] :=
  (complete_iff_certified [chatUsage, chatUsage] (by simp [distinct_chatUsage])).1.mp
    (by decide +kernel)

end BitRouter.Receipts
