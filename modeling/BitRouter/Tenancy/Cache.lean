import BitRouter.Data.Result
import BitRouter.Receipts.Capacity
import Mathlib.Data.List.Rotate
import Mathlib.Logic.Relation

/-!
# The immutable cache

`tenancy/cache.rs`: a bounded cache of immutable values, in the order of their
last use. Callers hold what they read by pins, an `Arc` whose strong count is
one where nobody but the cache holds the value. An insertion reads the counts
twice: to prove that an eviction can make room, and to evict. The lock keeps
new pins of unpinned values away meanwhile and nothing else: pins are cloned
and dropped without it, so that the second reading is not the first.

Subtractions are checked, and `none` is a panic, which poisons the lock.
-/

namespace BitRouter.Tenancy

open Receipts (checkedAdd checkedSub checkedMul)

/-- Capacity rejection is distinct from a poisoned cache, which fails closed. -/
inductive CacheError
  | capacity
  | unavailable
  deriving DecidableEq, Repr

/-- `size_of` and `align_of` of the types. -/
structure Sizes where
  cache : ℕ
  entry : ℕ
  value : ℕ
  alignment : ℕ

/-- An immutable value lease: the allocation it shares, and the value there. -/
structure Pin (V : Type) where
  arc : ℕ
  value : V

structure Entry (K V : Type) where
  key : K
  value : Pin V
  bytes : ℕ

/-- What the mutex guards: the entries from least to most recently used. -/
structure CacheState (K V : Type) where
  entries : List (Entry K V)
  bytes : ℕ

/-- Fixed entry and byte caps, and whether a panic has poisoned the mutex. -/
structure Cache (K V : Type) where
  maxEntries : ℕ
  maxBytes : ℕ
  fixedBytes : ℕ
  state : CacheState K V
  poisoned : Bool

variable {K V : Type}

/-! ## Charges -/

/-- Four machine words, and twice the maximum alignment minus two bytes. -/
def arcAllowance (s : Sizes) : Option ℕ := do
  let words ← checkedMul 8 4
  let padding ← checkedMul (← checkedSub (max s.alignment 8) 1) 2
  checkedAdd words padding

/-- What an entry is charged. -/
def charge (s : Sizes) (ownedBytes keyHeapBytes : ℕ) : Option ℕ := do
  let bytes ← checkedAdd s.value (← arcAllowance s)
  checkedAdd (← checkedAdd bytes ownedBytes) keyHeapBytes

def metadataBytes (s : Sizes) (maxBytes capacity : ℕ) : Except CacheError ℕ :=
  match (checkedMul capacity s.entry).bind (checkedAdd · s.cache) with
  | some bytes => if bytes ≤ maxBytes then .ok bytes else .error .capacity
  | none => .error .capacity

/-- A new cache, where `reserve` answers what the vector has allocated. -/
def Cache.new (s : Sizes) (maxEntries maxBytes : ℕ) (reserve : ℕ → Option ℕ) :
    Except CacheError (Cache K V) := do
  if maxEntries = 0 then throw .capacity
  let _ ← metadataBytes s maxBytes maxEntries
  let capacity ← (reserve maxEntries).elim (throw .capacity) pure
  -- What was allocated is charged, also where it is more than was asked for.
  let fixedBytes ← metadataBytes s maxBytes capacity
  return { maxEntries, maxBytes, fixedBytes, state := ⟨[], fixedBytes⟩, poisoned := false }

/-! ## The critical sections -/

namespace Cache

section Sections

variable [DecidableEq K]

/-- A section under the lock, which a panic poisons. -/
def locked {α : Type} (c : Cache K V)
    (body : CacheState K V → Option (Except CacheError α × CacheState K V)) :
    Option (Except CacheError α) × Cache K V :=
  if c.poisoned then (some (.error .unavailable), c)
  else match body c.state with
    | none => (none, { c with poisoned := true })
    | some (answer, state) => (some answer, { c with state })

/-- The pin of a key, and the entries with its entry rotated to the end. -/
def touch (entries : List (Entry K V)) (key : K) : Option (Pin V × List (Entry K V)) := do
  let index ← entries.findIdx? fun e => e.key = key
  let entry ← entries[index]?
  return (entry.value, entries.take index ++ (entries.drop index).rotate 1)

/-- Pin a hit and move it to the most recently used position. -/
def get (c : Cache K V) (key : K) : Option (Except CacheError (Option (Pin V))) × Cache K V :=
  c.locked fun state =>
    match touch state.entries key with
    | none => some (.ok none, state)
    | some (pin, entries) => some (.ok (some pin), { state with entries })

def fits (c : Cache K V) (bytes count used : ℕ) : Option Bool :=
  if count < c.maxEntries then (checkedSub c.maxBytes used).map (bytes ≤ ·) else some false

/-- What would be left of the counts, if the entries that are not pinned were
evicted one by one until the candidate fits. -/
def prove (c : Cache K V) (bytes : ℕ) (strong : ℕ → ℕ) :
    List (Entry K V) → ℕ → ℕ → Option (ℕ × ℕ)
  | [], count, used => some (count, used)
  | e :: rest, count, used => do
    if ← c.fits bytes count used then return (count, used)
    if strong e.value.arc = 1 then
      prove c bytes strong rest (← checkedSub count 1) (← checkedSub used e.bytes)
    else prove c bytes strong rest count used

/-- The entries that are retained, and the bytes in use after the others have
been evicted. -/
def retain (c : Cache K V) (bytes : ℕ) (strong : ℕ → ℕ) :
    List (Entry K V) → ℕ → ℕ → Option (List (Entry K V) × ℕ)
  | [], _, used => some ([], used)
  | e :: rest, count, used => do
    if (← c.fits bytes count used) || strong e.value.arc ≠ 1 then
      let (kept, used) ← retain c bytes strong rest count used
      return (e :: kept, used)
    retain c bytes strong rest (← checkedSub count 1) (← checkedSub used e.bytes)

/-- Publish a constructed value, or return the existing winner. The strong
counts are those of the first and of the second reading. -/
def insert (s : Sizes) (c : Cache K V) (key : K) (value : V) (ownedBytes keyHeapBytes : ℕ)
    (first second : ℕ → ℕ) (arc : ℕ) : Option (Except CacheError (Pin V)) × Cache K V :=
  c.locked fun state => do
    let some bytes := charge s ownedBytes keyHeapBytes | return (.error .capacity, state)
    if (← checkedSub c.maxBytes c.fixedBytes) < bytes then return (.error .capacity, state)
    if let some (winner, entries) := touch state.entries key then
      return (.ok winner, { state with entries })
    let (count, used) ← c.prove bytes first state.entries state.entries.length state.bytes
    if !(← c.fits bytes count used) then return (.error .capacity, state)
    let (kept, used) ← c.retain bytes second state.entries state.entries.length state.bytes
    let pin : Pin V := ⟨arc, value⟩
    return (.ok pin, ⟨kept ++ [⟨key, pin, bytes⟩], ← checkedAdd used bytes⟩)

end Sections

/-! ## What is evicted -/

/-- What some entries are charged. -/
def weight : List (Entry K V) → ℕ
  | [] => 0
  | e :: rest => e.bytes + weight rest

theorem weight_append (v w : List (Entry K V)) : weight (v ++ w) = weight v + weight w := by
  induction v with
  | nil => exact (Nat.zero_add _).symm
  | cons e rest ih => simp only [List.cons_append, weight, ih, Nat.add_assoc]

theorem weight_perm {v w : List (Entry K V)} (h : v.Perm w) : weight v = weight w := by
  induction h with
  | nil => rfl
  | cons e _ ih => rw [weight, weight, ih]
  | swap a b rest => exact Nat.add_left_comm _ _ _
  | trans _ _ ih ih' => exact ih.trans ih'

theorem weight_sublist {v w : List (Entry K V)} (h : v.Sublist w) : weight v ≤ weight w := by
  obtain ⟨rest, hperm⟩ := h.exists_perm_append
  rw [weight_perm hperm, weight_append]
  exact Nat.le_add_right _ _

/-- **There is room without some entries**: for one more, and for its bytes. -/
def Room (c : Cache K V) (bytes count used : ℕ) (victims : List (Entry K V)) : Prop :=
  count < c.maxEntries + victims.length ∧ bytes + used ≤ c.maxBytes + weight victims

instance (c : Cache K V) (bytes count used : ℕ) (victims : List (Entry K V)) :
    Decidable (c.Room bytes count used victims) :=
  inferInstanceAs (Decidable (_ ∧ _))

/-- The entries that a reading finds unpinned. -/
def unpinned (strong : ℕ → ℕ) (entries : List (Entry K V)) : List (Entry K V) :=
  entries.filter fun e => strong e.value.arc = 1

/-- **What an eviction takes out**: the least recently used of the free
entries, as few as make room. -/
def Evicts (c : Cache K V) (bytes count used : ℕ) (free victims : List (Entry K V)) : Prop :=
  victims <+: free ∧ c.Room bytes count used victims
    ∧ ∀ fewer, fewer <+: victims → c.Room bytes count used fewer → fewer = victims

section Readings

variable {c : Cache K V} {bytes : ℕ} {strong : ℕ → ℕ}

theorem fits_eq {count used : ℕ} (h : used ≤ c.maxBytes) :
    c.fits bytes count used = some (decide (c.Room bytes count used [])) := by
  by_cases hcount : count < c.maxEntries
  · have hroom : bytes ≤ c.maxBytes - used ↔ c.Room bytes count used [] := by
      simp only [Room, List.length_nil, weight]
      omega
    rw [fits, if_pos hcount, Receipts.checkedSub_of_le h, Option.map_some]
    exact congrArg some (decide_eq_decide.mpr hroom)
  · rw [fits, if_neg hcount, decide_eq_false fun hroom : c.Room _ _ _ _ => hcount hroom.1]

theorem Room.mono {count used : ℕ} {v w : List (Entry K V)} (h : v.Sublist w)
    (hv : c.Room bytes count used v) : c.Room bytes count used w :=
  ⟨hv.1.trans_le (Nat.add_le_add_left h.length_le _),
    hv.2.trans (Nat.add_le_add_left (weight_sublist h) _)⟩

theorem room_cons {count used : ℕ} {e : Entry K V} {v : List (Entry K V)} (hcount : 0 < count)
    (hused : e.bytes ≤ used) :
    c.Room bytes (count - 1) (used - e.bytes) v ↔ c.Room bytes count used (e :: v) := by
  simp only [Room, List.length_cons, weight]
  omega

/-- **The first reading finds room exactly where all unpinned entries make
it.** -/
theorem prove_spec : ∀ {entries : List (Entry K V)} {count used : ℕ},
    entries.length ≤ count → weight entries ≤ used → used ≤ c.maxBytes →
      ∃ left, c.prove bytes strong entries count used = some left
        ∧ c.fits bytes left.1 left.2
          = some (decide (c.Room bytes count used (unpinned strong entries)))
  | [], count, used, _, _, hmax => ⟨(count, used), rfl, fits_eq hmax⟩
  | e :: rest, count, used, hcount, hused, hmax => by
    simp only [List.length_cons, weight] at hcount hused
    rw [prove, fits_eq hmax]
    by_cases hroom : c.Room bytes count used []
    · refine ⟨(count, used), by simp [hroom], ?_⟩
      rw [fits_eq hmax, decide_eq_true hroom, decide_eq_true (hroom.mono (List.nil_sublist _))]
    · by_cases hfree : strong e.value.arc = 1
      · obtain ⟨left, hprove, hfits⟩ := prove_spec (show rest.length ≤ count - 1 by omega)
          (show weight rest ≤ used - e.bytes by omega) (by omega)
        refine ⟨left, ?_, ?_⟩
        · simp [hroom, hfree, Receipts.checkedSub_of_le (show 1 ≤ count by omega),
            Receipts.checkedSub_of_le (show e.bytes ≤ used by omega), hprove]
        · rw [hfits, unpinned, unpinned, List.filter_cons_of_pos (by simpa using hfree),
            decide_eq_decide.mpr (room_cons (by omega) (by omega))]
      · obtain ⟨left, hprove, hfits⟩ := prove_spec (show rest.length ≤ count by omega)
          (show weight rest ≤ used by omega) hmax
        refine ⟨left, by simp [hroom, hfree, hprove], ?_⟩
        rw [hfits, unpinned, unpinned, List.filter_cons_of_neg (by simpa using hfree)]

theorem retain_of_room {count used : ℕ} (h : c.Room bytes count used [])
    (hmax : used ≤ c.maxBytes) :
    ∀ entries, c.retain bytes strong entries count used = some (entries, used)
  | [] => rfl
  | e :: rest => by
    rw [retain, fits_eq hmax, decide_eq_true h]
    simp [retain_of_room h hmax rest]

/-- **The second reading evicts no more than it needs**, and keeps the order
of the others. -/
theorem retain_spec : ∀ {entries : List (Entry K V)} {count used : ℕ},
    entries.length ≤ count → weight entries ≤ used → used ≤ c.maxBytes →
      c.Room bytes count used (unpinned strong entries) →
      ∃ victims kept, c.Evicts bytes count used (unpinned strong entries) victims
        ∧ kept.Sublist entries ∧ (victims ++ kept).Perm entries
        ∧ c.retain bytes strong entries count used = some (kept, used - weight victims)
  | [], _, _, _, _, _, hroom =>
    ⟨[], [], ⟨List.nil_prefix, hroom, fun _ h _ => List.prefix_nil.mp h⟩, .slnil, .refl _, rfl⟩
  | e :: rest, count, used, hcount, hused, hmax, hfits => by
    simp only [List.length_cons, weight] at hcount hused
    by_cases hroom : c.Room bytes count used []
    · exact ⟨[], e :: rest, ⟨List.nil_prefix, hroom, fun _ h _ => List.prefix_nil.mp h⟩,
        List.Sublist.refl _, .refl _, retain_of_room hroom hmax _⟩
    · rw [retain, fits_eq hmax, decide_eq_false hroom]
      by_cases hfree : strong e.value.arc = 1
      · have hcons : unpinned strong (e :: rest) = e :: unpinned strong rest :=
          List.filter_cons_of_pos (by simpa using hfree)
        rw [hcons] at hfits ⊢
        obtain ⟨victims, kept, ⟨hleading, hroom', hleast⟩, hsub, hperm, heq⟩ :=
          retain_spec (show rest.length ≤ count - 1 by omega)
            (show weight rest ≤ used - e.bytes by omega) (by omega)
            ((room_cons (by omega) (by omega)).mpr hfits)
        refine ⟨e :: victims, kept, ⟨(List.prefix_cons_inj e).mpr hleading,
          (room_cons (by omega) (by omega)).mp hroom', fun fewer hfewer hr => ?_⟩,
          hsub.cons e, hperm.cons e, ?_⟩
        · cases fewer with
          | nil => exact absurd hr hroom
          | cons a fewer =>
            obtain ⟨rfl, htail⟩ := List.cons_prefix_cons.mp hfewer
            rw [hleast fewer htail ((room_cons (by omega) (by omega)).mpr hr)]
        · simp [hfree, Receipts.checkedSub_of_le (show 1 ≤ count by omega), heq, weight,
            Receipts.checkedSub_of_le (show e.bytes ≤ used by omega), Nat.sub_sub]
      · have hpinned : unpinned strong (e :: rest) = unpinned strong rest :=
          List.filter_cons_of_neg (by simpa using hfree)
        rw [hpinned] at hfits ⊢
        obtain ⟨victims, kept, hevicts, hsub, hperm, heq⟩ :=
          retain_spec (show rest.length ≤ count by omega) (show weight rest ≤ used by omega) hmax
            hfits
        exact ⟨victims, e :: kept, hevicts, hsub.cons_cons e,
          List.perm_middle.trans (hperm.cons e), by simp [hfree, heq]⟩

end Readings

/-! ## Soundness of a section -/

/-- **A cache that accounts for its entries.** -/
structure Sound (c : Cache K V) : Prop where
  keys : (c.state.entries.map Entry.key).Nodup
  bytes : c.state.bytes = c.fixedBytes + weight c.state.entries
  bytes_le : c.state.bytes ≤ c.maxBytes
  length_le : c.state.entries.length ≤ c.maxEntries
  alive : c.poisoned = false

variable {c : Cache K V} {s : Sizes}

theorem new_sound {maxEntries maxBytes : ℕ} {reserve : ℕ → Option ℕ}
    (h : Cache.new s maxEntries maxBytes reserve = .ok c) :
    c.Sound ∧ c.state.entries = [] ∧ c.maxEntries = maxEntries ∧ c.maxBytes = maxBytes := by
  rw [Cache.new] at h
  split at h
  · cases h
  obtain ⟨-, -, h⟩ := bind_eq_ok.mp h
  obtain ⟨capacity, -, h⟩ := bind_eq_ok.mp h
  obtain ⟨fixedBytes, hfixed, h⟩ := bind_eq_ok.mp h
  cases h
  refine ⟨⟨List.nodup_nil, rfl, ?_, Nat.zero_le _, rfl⟩, rfl, rfl, rfl⟩
  unfold metadataBytes at hfixed
  split at hfixed
  · split at hfixed
    · cases hfixed
      assumption
    · cases hfixed
  · cases hfixed

/-- A section that does not panic is answered. -/
theorem Sound.locked_eq (h : c.Sound) {α : Type}
    {body : CacheState K V → Option (Except CacheError α × CacheState K V)}
    {answer : Except CacheError α} {t : CacheState K V}
    (hbody : body c.state = some (answer, t)) :
    c.locked body = (some answer, { c with state := t }) := by
  rw [locked, if_neg (by rw [h.alive]; exact Bool.false_ne_true), hbody]

theorem Sound.perm (h : c.Sound) {entries : List (Entry K V)}
    (hperm : entries.Perm c.state.entries) :
    Cache.Sound { c with state := { c.state with entries } } :=
  ⟨(hperm.map Entry.key).nodup_iff.mpr h.keys, by rw [h.bytes, weight_perm hperm], h.bytes_le,
    hperm.length_eq ▸ h.length_le, h.alive⟩

/-- **What an eviction makes room for can be put there.** -/
theorem Sound.inserted (h : c.Sound) {victims kept : List (Entry K V)} {e : Entry K V}
    (hsub : kept.Sublist c.state.entries) (hperm : (victims ++ kept).Perm c.state.entries)
    (hkey : e.key ∉ c.state.entries.map Entry.key)
    (hroom : c.Room e.bytes c.state.entries.length c.state.bytes victims) :
    Cache.Sound { c with
      state := ⟨kept ++ [e], c.state.bytes - weight victims + e.bytes⟩ } := by
  have hlength := hperm.length_eq
  have hweight := weight_perm hperm
  rw [List.length_append] at hlength
  rw [weight_append] at hweight
  have hbytes := h.bytes
  obtain ⟨hcount, hfit⟩ := hroom
  refine ⟨?_, ?_, ?_, ?_, h.alive⟩
  · show ((kept ++ [e]).map Entry.key).Nodup
    rw [List.map_append, List.map_singleton, List.nodup_append]
    exact ⟨(hsub.map _).nodup h.keys, List.nodup_singleton _, fun a ha b hb hab =>
      hkey (List.mem_singleton.mp hb ▸ hab ▸ (hsub.map _).subset ha)⟩
  · show c.state.bytes - weight victims + e.bytes = c.fixedBytes + weight (kept ++ [e])
    simp only [weight_append, weight]
    omega
  · show c.state.bytes - weight victims + e.bytes ≤ c.maxBytes
    omega
  · show (kept ++ [e]).length ≤ c.maxEntries
    rw [List.length_append, List.length_singleton]
    omega

variable [DecidableEq K] {key : K}

/-- A key that is found is rotated to the end. -/
theorem touch_cases (entries : List (Entry K V)) (key : K) :
    (touch entries key = none ∧ key ∉ entries.map Entry.key) ∨
      ∃ a e b, entries = a ++ e :: b ∧ e.key = key
        ∧ touch entries key = some (e.value, a ++ b ++ [e]) := by
  unfold touch
  cases hi : entries.findIdx? (fun e => e.key = key) with
  | none => exact .inl ⟨rfl, by simpa [List.findIdx?_eq_none_iff] using hi⟩
  | some i =>
    obtain ⟨hlt, hkey, -⟩ := List.findIdx?_eq_some_iff_getElem.mp hi
    refine .inr ⟨entries.take i, entries[i], entries.drop (i + 1), ?_, by simpa using hkey, ?_⟩
    · rw [← List.drop_eq_getElem_cons hlt, List.take_append_drop]
    · have hrotate : (entries.drop i).rotate 1 = entries.drop (i + 1) ++ [entries[i]] := by
        rw [List.drop_eq_getElem_cons hlt, List.rotate_cons_succ, List.rotate_zero]
      simp [List.getElem?_eq_getElem hlt, hrotate]

section Insert

variable {value : V} {ownedBytes keyHeapBytes arc : ℕ} {first second : ℕ → ℕ}

/-- **An exact insertion**: it succeeds exactly where there is room without the
entries that the first reading finds unpinned, and evicts as few as make room
of those of the second. Otherwise it changes nothing. -/
def InsertsExactly (s : Sizes) (c : Cache K V) (key : K) (value : V)
    (ownedBytes keyHeapBytes : ℕ) (first second : ℕ → ℕ) (arc : ℕ) : Prop :=
  (∃ bytes victims kept, charge s ownedBytes keyHeapBytes = some bytes
      ∧ c.Room bytes c.state.entries.length c.state.bytes (unpinned first c.state.entries)
      ∧ c.Evicts bytes c.state.entries.length c.state.bytes
        (unpinned second c.state.entries) victims
      ∧ kept.Sublist c.state.entries ∧ (victims ++ kept).Perm c.state.entries
      ∧ c.insert s key value ownedBytes keyHeapBytes first second arc
        = (some (.ok ⟨arc, value⟩), { c with
            state := ⟨kept ++ [⟨key, ⟨arc, value⟩, bytes⟩],
              c.state.bytes - weight victims + bytes⟩ })) ∨
    (¬ ∃ bytes, charge s ownedBytes keyHeapBytes = some bytes
        ∧ c.Room bytes c.state.entries.length c.state.bytes (unpinned first c.state.entries))
      ∧ c.insert s key value ownedBytes keyHeapBytes first second arc
        = (some (.error .capacity), c)

theorem Sound.insert_absent (h : c.Sound) (hmax : c.maxBytes < 2 ^ 64)
    (hkey : key ∉ c.state.entries.map Entry.key) (hlater : ∀ a, first a = 1 → second a = 1) :
    c.InsertsExactly s key value ownedBytes keyHeapBytes first second arc := by
  unfold InsertsExactly
  have hbytes := h.bytes
  have hle := h.bytes_le
  have hfixed := Receipts.checkedSub_of_le (show c.fixedBytes ≤ c.maxBytes by omega)
  obtain ⟨htouch, -⟩ | ⟨a, e, b, heq, rfl, -⟩ := touch_cases c.state.entries key
  swap
  · exact absurd (by simp [heq]) hkey
  cases hcharge : charge s ownedBytes keyHeapBytes with
  | none => exact .inr ⟨by simp, h.locked_eq (t := c.state) (by simp [hcharge])⟩
  | some bytes =>
    obtain ⟨left, hprove, hfits⟩ := @prove_spec K V c bytes first c.state.entries _ c.state.bytes
      le_rfl (by omega) hle
    by_cases hroom : c.Room bytes c.state.entries.length c.state.bytes
        (unpinned first c.state.entries)
    · have hsub : (unpinned first c.state.entries).Sublist (unpinned second c.state.entries) :=
        List.monotone_filter_right _ fun e he => by simpa using hlater _ (by simpa using he)
      obtain ⟨victims, kept, hevicts, hkept, hperm, hretain⟩ := retain_spec le_rfl
        (show _ ≤ c.state.bytes by omega) hle (hroom.mono hsub)
      refine .inl ⟨bytes, victims, kept, rfl, hroom, hevicts, hkept, hperm, h.locked_eq ?_⟩
      have hadd : checkedAdd (c.state.bytes - weight victims) bytes
          = some (c.state.bytes - weight victims + bytes) := by
        have hfit := hevicts.2.1.2
        have hweight := weight_perm hperm
        rw [weight_append] at hweight
        exact Receipts.checkedAdd_of_lt (by omega)
      -- What fits beside other entries fits an empty cache.
      have hmost : ¬ c.maxBytes - c.fixedBytes < bytes := by
        have := hroom.2
        have := weight_sublist (List.filter_sublist (l := c.state.entries)
          (p := fun e => first e.value.arc = 1))
        simp only [unpinned] at *
        omega
      rw [decide_eq_true hroom] at hfits
      simp [hcharge, hprove, hfits, hretain, htouch, hfixed, hmost, hadd]
    · refine .inr ⟨by simpa using hroom, h.locked_eq (t := c.state) ?_⟩
      rw [decide_eq_false hroom] at hfits
      by_cases hmost : c.maxBytes - c.fixedBytes < bytes
      · simp [hcharge, hfixed, hmost]
      · simp [hcharge, hprove, hfits, htouch, hfixed]

/-- **An exact insertion of a key that is there**: it answers the value that won,
and only makes its entry the last one. A candidate that could not fit an empty
cache is refused even so, and changes nothing. -/
def RepeatsExactly (s : Sizes) (c : Cache K V) (e : Entry K V) (value : V)
    (ownedBytes keyHeapBytes : ℕ) (first second : ℕ → ℕ) (arc : ℕ) : Prop :=
  (∃ bytes before after, charge s ownedBytes keyHeapBytes = some bytes
      ∧ bytes ≤ c.maxBytes - c.fixedBytes ∧ c.state.entries = before ++ e :: after
      ∧ c.insert s e.key value ownedBytes keyHeapBytes first second arc
        = (some (.ok e.value),
          { c with state := { c.state with entries := before ++ after ++ [e] } })) ∨
    (¬ ∃ bytes, charge s ownedBytes keyHeapBytes = some bytes
        ∧ bytes ≤ c.maxBytes - c.fixedBytes)
      ∧ c.insert s e.key value ownedBytes keyHeapBytes first second arc
        = (some (.error .capacity), c)

/-- The place of an entry is where its key is found. -/
theorem Sound.touch_entry (h : c.Sound) {e : Entry K V} (he : e ∈ c.state.entries) :
    ∃ a b, c.state.entries = a ++ e :: b
      ∧ touch c.state.entries e.key = some (e.value, a ++ b ++ [e]) := by
  obtain ⟨-, hkey⟩ | ⟨a, x, b, heq, hx, ht⟩ := touch_cases c.state.entries e.key
  · exact absurd (List.mem_map_of_mem he) hkey
  · obtain rfl : x = e :=
      List.inj_on_of_nodup_map h.keys (by rw [heq]; simp) he hx
    exact ⟨a, b, heq, ht⟩

theorem Sound.insert_present (h : c.Sound) {e : Entry K V} (he : e ∈ c.state.entries) :
    c.RepeatsExactly s e value ownedBytes keyHeapBytes first second arc := by
  unfold RepeatsExactly
  have hbytes := h.bytes
  have hle := h.bytes_le
  have hfixed := Receipts.checkedSub_of_le (show c.fixedBytes ≤ c.maxBytes by omega)
  obtain ⟨a, b, heq, ht⟩ := h.touch_entry he
  cases hcharge : charge s ownedBytes keyHeapBytes with
  | none => exact .inr ⟨by simp, h.locked_eq (t := c.state) (by simp [hcharge])⟩
  | some bytes =>
    by_cases hmost : c.maxBytes - c.fixedBytes < bytes
    · exact .inr ⟨by simpa using hmost,
        h.locked_eq (t := c.state) (by simp [hcharge, hfixed, hmost])⟩
    · exact .inl ⟨bytes, a, b, rfl, not_lt.mp hmost, heq,
        h.locked_eq (by simp [hcharge, hfixed, hmost, ht])⟩

/-- A reading of a key that is there. -/
theorem Sound.get_present (h : c.Sound) {e : Entry K V} (he : e ∈ c.state.entries) :
    (c.get e.key).1 = some (.ok (some e.value)) := by
  obtain ⟨a, b, -, ht⟩ := h.touch_entry he
  rw [Cache.get, h.locked_eq (by rw [ht])]

end Insert

end Cache

/-! ## Runs -/

/-- **The cache and its callers**: the pins they hold, and, as history, when
each key was last read or published. -/
structure World (K V : Type) where
  cache : Cache K V
  pins : List (Pin V)
  clock : ℕ
  used : K → ℕ

/-- The strong count of an allocation: the cache's own handle, and the pins at
the moment it is read. -/
def strongCount (pins : ℕ → List (Pin V)) (arc : ℕ) : ℕ :=
  1 + (pins arc).countP fun p => p.arc = arc

theorem strongCount_eq_one {pins : ℕ → List (Pin V)} {arc : ℕ} :
    strongCount pins arc = 1 ↔ ∀ p ∈ pins arc, p.arc ≠ arc := by
  simp [strongCount, List.countP_eq_zero]

/-- What nobody holds cannot be held later. -/
theorem strongCount_later {first second : ℕ → List (Pin V)} (h : ∀ a, second a ⊆ first a) (a : ℕ) :
    strongCount first a = 1 → strongCount second a = 1 := by
  rw [strongCount_eq_one, strongCount_eq_one]
  exact fun hfree p hp => hfree p (h a hp)

namespace World

/-- **What holds in every run.** -/
structure Sound (w : World K V) : Prop where
  cache : w.cache.Sound
  /-- A live pin keeps its entry resident. -/
  resident : ∀ p ∈ w.pins, ∃ e ∈ w.cache.state.entries, e.value = p
  /-- The entries are in the order of their last use. -/
  recent : w.cache.state.entries.Pairwise fun a b => w.used a.key < w.used b.key
  past : ∀ e ∈ w.cache.state.entries, w.used e.key < w.clock

theorem Sound.pins {w : World K V} (h : w.Sound) {pins : List (Pin V)} (hpins : pins ⊆ w.pins) :
    Sound { w with pins } :=
  ⟨h.cache, fun p hp => h.resident p (hpins hp), h.recent, h.past⟩

variable [DecidableEq K] {s : Sizes} {w w' : World K V}

/-- A pin that is answered is held by the caller. -/
def answered (w : World K V) (key : K) (answer : Option (Except CacheError (Option (Pin V))))
    (cache : Cache K V) (pins : List (Pin V)) : World K V :=
  match answer with
  | some (.ok (some pin)) =>
    ⟨cache, pin :: pins, w.clock + 1, Function.update w.used key w.clock⟩
  | _ => { w with cache, pins }

/-- **One step of somebody.** While an insertion holds the lock its strong
counts are read one by one, and pins may be cloned and dropped meanwhile: what
can be held later is what was held before. -/
inductive Step (s : Sizes) (w : World K V) : World K V → Prop
  | get (key : K) : Step s w (w.answered key (w.cache.get key).1 (w.cache.get key).2 w.pins)
  | insert (key : K) (value : V) (ownedBytes keyHeapBytes arc : ℕ)
    (first second : ℕ → List (Pin V)) (later : List (Pin V))
    (hfirst : ∀ a, first a ⊆ w.pins) (hsecond : ∀ a, second a ⊆ first a)
    (hlater : ∀ a, later ⊆ second a) (harc : ∀ e ∈ w.cache.state.entries, e.value.arc ≠ arc)
    (r) (hr : w.cache.insert s key value ownedBytes keyHeapBytes (strongCount first)
      (strongCount second) arc = r) :
    Step s w (w.answered key (r.1.map (·.map some)) r.2 later)
  | clone (p : Pin V) (hp : p ∈ w.pins) : Step s w { w with pins := p :: w.pins }
  | drop (i : ℕ) : Step s w { w with pins := w.pins.eraseIdx i }

/-- **An entry that was used last** stands last. -/
theorem Sound.last (h : w.Sound) {kept : List (Entry K V)} {e : Entry K V} {cache : Cache K V}
    {pins : List (Pin V)} (hcache : cache.Sound) (hentries : cache.state.entries = kept ++ [e])
    (hsub : kept.Sublist w.cache.state.entries)
    (hpins : ∀ p ∈ pins, ∃ a ∈ kept ++ [e], a.value = p) :
    Sound ⟨cache, e.value :: pins, w.clock + 1, Function.update w.used e.key w.clock⟩ := by
  have hne : ∀ a ∈ kept, a.key ≠ e.key := by
    have hkeys := hcache.keys
    rw [hentries, List.map_append, List.nodup_append] at hkeys
    exact fun a ha => hkeys.2.2 _ (List.mem_map_of_mem ha) _ (by simp)
  have hused : ∀ a ∈ kept, Function.update w.used e.key w.clock a.key = w.used a.key :=
    fun a ha => Function.update_of_ne (hne a ha) _ _
  have hlast : Function.update w.used e.key w.clock e.key = w.clock := Function.update_self _ _ _
  refine ⟨hcache, ?_, ?_, ?_⟩
  · show ∀ p ∈ e.value :: pins, ∃ a ∈ cache.state.entries, a.value = p
    rw [hentries]
    exact List.forall_mem_cons.mpr ⟨⟨e, by simp, rfl⟩, hpins⟩
  · show cache.state.entries.Pairwise fun a b => Function.update w.used e.key w.clock a.key
      < Function.update w.used e.key w.clock b.key
    rw [hentries, List.pairwise_append]
    refine ⟨(h.recent.sublist hsub).imp_of_mem fun {a b} ha hb hab => ?_,
      List.pairwise_singleton _ _, fun a ha b hb => ?_⟩
    · rw [hused a ha, hused b hb]
      exact hab
    · rw [List.mem_singleton.mp hb, hused a ha, hlast]
      exact h.past a (hsub.subset ha)
  · show ∀ a ∈ cache.state.entries, Function.update w.used e.key w.clock a.key < w.clock + 1
    rw [hentries]
    intro a ha
    rcases List.mem_append.mp ha with ha | ha
    · rw [hused a ha]
      exact Nat.lt_succ_of_lt (h.past a (hsub.subset ha))
    · rw [List.mem_singleton.mp ha, hlast]
      exact Nat.lt_succ_self _

/-- **A hit is the entry used last.** -/
theorem Sound.hit (h : w.Sound) {a b : List (Entry K V)} {e : Entry K V}
    (heq : w.cache.state.entries = a ++ e :: b) {pins : List (Pin V)} (hpins : pins ⊆ w.pins) :
    Sound ⟨{ w.cache with state := { w.cache.state with entries := a ++ b ++ [e] } },
      e.value :: pins, w.clock + 1, Function.update w.used e.key w.clock⟩ := by
  have hperm : (a ++ b ++ [e]).Perm w.cache.state.entries := by
    rw [heq, List.append_assoc]
    exact (List.perm_append_singleton e b).append_left a
  refine h.last (h.cache.perm hperm) rfl ?_ fun p hp => ?_
  · rw [heq]
    exact (List.sublist_cons_self e b).append_left a
  · obtain ⟨x, hx, hxp⟩ := h.resident p (hpins hp)
    exact ⟨x, hperm.mem_iff.mpr hx, hxp⟩

/-- **One step keeps the cache sound**, and its limits as they are. -/
theorem Sound.step (h : w.Sound) (hmax : w.cache.maxBytes < 2 ^ 64) (hstep : Step s w w') :
    w'.Sound ∧ ∃ state, w'.cache = { w.cache with state } := by
  cases hstep with
  | get key =>
    obtain ⟨ht, -⟩ | ⟨a, e, b, heq, rfl, ht⟩ := Cache.touch_cases w.cache.state.entries key
    · have hget : w.cache.get key = (some (.ok none), w.cache) :=
        h.cache.locked_eq (t := w.cache.state) (by rw [ht])
      rw [hget]
      exact ⟨h, _, rfl⟩
    · have hget : w.cache.get e.key = (some (.ok (some e.value)),
          { w.cache with state := { w.cache.state with entries := a ++ b ++ [e] } }) :=
        h.cache.locked_eq (by rw [ht])
      rw [hget]
      exact ⟨h.hit heq (List.Subset.refl _), _, rfl⟩
  | insert key value ownedBytes keyHeapBytes arc first second later hfirst hsecond hlater harc r
      hr =>
    have hpins : later ⊆ w.pins := fun p hp => hfirst 0 (hsecond 0 (hlater 0 hp))
    obtain ⟨-, hkey⟩ | ⟨a, e, b, heq, rfl, ht⟩ := Cache.touch_cases w.cache.state.entries key
    · obtain ⟨bytes, victims, kept, -, -, ⟨hleading, hroom, -⟩, hsub, hperm, hins⟩ | ⟨-, hins⟩ :=
        h.cache.insert_absent hmax hkey (strongCount_later hsecond)
      · rw [← hr, hins]
        refine ⟨h.last (h.cache.inserted hsub hperm hkey hroom) rfl hsub fun p hp => ?_, _, rfl⟩
        obtain ⟨a, ha, rfl⟩ := h.resident p (hpins hp)
        rcases List.mem_append.mp (hperm.mem_iff.mpr ha) with hv | hk
        · -- The entry of a pin that is still alive was pinned when it was read.
          have hfree := (List.mem_filter.mp (hleading.subset hv)).2
          exact absurd rfl (strongCount_eq_one.mp (by simpa using hfree) _ (hlater _ hp))
        · exact ⟨a, List.mem_append_left _ hk, rfl⟩
      · rw [← hr, hins]
        exact ⟨h.pins hpins, _, rfl⟩
    · have he : e ∈ w.cache.state.entries := by
        rw [heq]
        simp
      obtain ⟨-, a, b, -, -, heq, hins⟩ | ⟨-, hins⟩ := h.cache.insert_present (s := s) he
      · rw [← hr, hins]
        exact ⟨h.hit heq hpins, _, rfl⟩
      · rw [← hr, hins]
        exact ⟨h.pins hpins, _, rfl⟩
  | clone p hp => exact ⟨h.pins (List.cons_subset.mpr ⟨hp, List.Subset.refl _⟩), _, rfl⟩
  | drop i => exact ⟨h.pins List.eraseIdx_subset, _, rfl⟩

/-- **A pinned entry stays**: no step evicts an entry that is pinned after it. -/
theorem Sound.kept (h : w.Sound) (hmax : w.cache.maxBytes < 2 ^ 64) (hstep : Step s w w')
    {e : Entry K V} (he : e ∈ w.cache.state.entries) (hpin : e.value ∈ w'.pins) :
    e ∈ w'.cache.state.entries := by
  have hmoved {a b : List (Entry K V)} {x : Entry K V}
      (heq : w.cache.state.entries = a ++ x :: b) : e ∈ a ++ b ++ [x] := by
    have hperm : (a ++ b ++ [x]).Perm w.cache.state.entries := by
      rw [heq, List.append_assoc]
      exact (List.perm_append_singleton x b).append_left a
    exact hperm.mem_iff.mpr he
  cases hstep with
  | get key =>
    obtain ⟨ht, -⟩ | ⟨a, x, b, heq, rfl, ht⟩ := Cache.touch_cases w.cache.state.entries key
    · have hget : w.cache.get key = (some (.ok none), w.cache) :=
        h.cache.locked_eq (t := w.cache.state) (by rw [ht])
      rw [hget]
      exact he
    · have hget : w.cache.get x.key = (some (.ok (some x.value)),
          { w.cache with state := { w.cache.state with entries := a ++ b ++ [x] } }) :=
        h.cache.locked_eq (by rw [ht])
      rw [hget]
      exact hmoved heq
  | insert key value ownedBytes keyHeapBytes arc first second later hfirst hsecond hlater harc r
      hr =>
    obtain ⟨-, hkey⟩ | ⟨a, x, b, heq, rfl, -⟩ := Cache.touch_cases w.cache.state.entries key
    · obtain ⟨bytes, victims, kept, -, -, ⟨hleading, -, -⟩, -, hperm, hins⟩ | ⟨-, hins⟩ :=
        h.cache.insert_absent hmax hkey (strongCount_later hsecond)
      · rw [← hr, hins] at hpin ⊢
        -- The pin is an old one: the new allocation is not that of an entry.
        have hold : e.value ∈ later := by
          refine (List.mem_cons.mp hpin).resolve_left (fun hnew => harc e he ?_)
          rw [hnew]
        rcases List.mem_append.mp (hperm.mem_iff.mpr he) with hv | hk
        · have hfree := (List.mem_filter.mp (hleading.subset hv)).2
          exact absurd rfl (strongCount_eq_one.mp (by simpa using hfree) _ (hlater _ hold))
        · exact List.mem_append_left _ hk
      · rw [← hr, hins]
        exact he
    · have hx : x ∈ w.cache.state.entries := by
        rw [heq]
        simp
      obtain ⟨-, a, b, -, -, heq, hins⟩ | ⟨-, hins⟩ := h.cache.insert_present (s := s) hx
      · rw [← hr, hins]
        exact hmoved heq
      · rw [← hr, hins]
        exact he
  | clone p hp => exact he
  | drop i => exact he

/-- **What callers rely on** in a state of the cache. -/
structure Reliable (s : Sizes) (w : World K V) : Prop where
  sound : w.Sound
  /-- An entry stays as it is as long as a pin of it lives, whatever happens. -/
  kept : ∀ e ∈ w.cache.state.entries, ∀ w',
    Relation.ReflTransGen (fun a b => Step s a b ∧ e.value ∈ b.pins) w w' →
      e ∈ w'.cache.state.entries
  /-- A key that is there is read as it was published. -/
  read : ∀ e ∈ w.cache.state.entries, (w.cache.get e.key).1 = some (.ok (some e.value))
  /-- So it is answered when it is inserted again. -/
  repeated : ∀ e ∈ w.cache.state.entries, ∀ value ownedBytes keyHeapBytes first second arc,
    w.cache.RepeatsExactly s e value ownedBytes keyHeapBytes first second arc
  /-- A key that is not there is inserted where there is room, with whatever pins
  are dropped between the two readings. -/
  inserted : ∀ key ∉ w.cache.state.entries.map Entry.key,
    ∀ value ownedBytes keyHeapBytes arc (first second : ℕ → List (Pin V)),
      (∀ a, second a ⊆ first a) →
        w.cache.InsertsExactly s key value ownedBytes keyHeapBytes (strongCount first)
          (strongCount second) arc

section Run

variable {c : Cache K V} {maxEntries maxBytes : ℕ} {reserve : ℕ → Option ℕ}
  (hnew : Cache.new s maxEntries maxBytes reserve = .ok c) (hmax : maxBytes < 2 ^ 64)
  (hrun : Relation.ReflTransGen (Step s) ⟨c, [], 0, fun _ => 0⟩ w)

include hnew hmax hrun

/-- The soundness of a run, by induction on its steps. -/
theorem Sound.run : w.Sound ∧ ∃ state, w.cache = { c with state } := by
  obtain ⟨hsound, hempty, -, rfl⟩ := Cache.new_sound hnew
  induction hrun with
  | refl =>
    refine ⟨⟨hsound, fun p hp => absurd hp List.not_mem_nil, ?_, ?_⟩, c.state, rfl⟩
    · rw [hempty]
      exact List.Pairwise.nil
    · rw [hempty]
      exact fun e he => absurd he List.not_mem_nil
  | tail _ hstep ih =>
    obtain ⟨hw, state, heq⟩ := ih
    obtain ⟨hw', state', heq'⟩ := hw.step (by rw [heq]; exact hmax) hstep
    exact ⟨hw', state', by rw [heq', heq]⟩

/-- A pinned entry stays in a run, as long as a pin of it lives. -/
theorem Sound.keptAlong {e : Entry K V} (he : e ∈ w.cache.state.entries)
    (hlater : Relation.ReflTransGen (fun a b => Step s a b ∧ e.value ∈ b.pins) w w') :
    e ∈ w'.cache.state.entries
      ∧ Relation.ReflTransGen (Step s) ⟨c, [], 0, fun _ => 0⟩ w' := by
  induction hlater with
  | refl => exact ⟨he, hrun⟩
  | tail _ hstep ih =>
    obtain ⟨he, hreached⟩ := ih
    obtain ⟨h, state, heq⟩ := Sound.run hnew hmax hreached
    obtain ⟨-, -, -, rfl⟩ := Cache.new_sound hnew
    exact ⟨h.kept (by rw [heq]; exact hmax) hstep.1 he hstep.2, hreached.tail hstep.1⟩

/-- **The cache in every run**, whoever reads, inserts, clones and drops pins
in whatever order. Its keys are distinct, its bytes are the fixed ones and
those its entries are charged, both limits are respected and never change, no
panic has poisoned it, and the entries are in the order of their last use. A
pin that is alive keeps its entry, which every reading and every insertion that
is not refused answers, and insertions of other keys are exact. -/
theorem run_reliable : w.Reliable s ∧ w.cache.maxEntries = maxEntries
    ∧ w.cache.maxBytes = maxBytes ∧ w.cache.fixedBytes = c.fixedBytes := by
  obtain ⟨h, state, heq⟩ := Sound.run hnew hmax hrun
  obtain ⟨-, -, hentries, hbytes⟩ := Cache.new_sound hnew
  have hlimit : w.cache.maxBytes < 2 ^ 64 := by
    rw [heq, hbytes]
    exact hmax
  exact ⟨{ sound := h
           kept := fun e he w' hlater => (Sound.keptAlong hnew hmax hrun he hlater).1
           read := fun e he => h.cache.get_present he
           repeated := fun e he value ownedBytes keyHeapBytes first second arc =>
             h.cache.insert_present he
           inserted := fun key hkey value ownedBytes keyHeapBytes arc first second hsecond =>
             h.cache.insert_absent hlimit hkey (strongCount_later hsecond) },
    by rw [heq, hentries], by rw [heq, hbytes], by rw [heq]⟩

end Run

/-! A sample: three values are published; the pin of the first was dropped, and
so it is evicted for the third, while the second is pinned. -/

def sizes : Sizes := ⟨100, 40, 8, 8⟩

def sample : Cache ℕ ℕ := ⟨2, 400, 180, ⟨[], 180⟩, false⟩

/-- The pins that an insertion finds, whenever it reads them. -/
def held (pins : List (Pin ℕ)) : ℕ → List (Pin ℕ) := fun _ => pins

/-- The cache of the sample, with some entries of 54 bytes each. -/
def holding (entries : List (ℕ × Pin ℕ)) : Cache ℕ ℕ :=
  { sample with state := ⟨entries.map fun e => ⟨e.1, e.2, 54⟩, 180 + 54 * entries.length⟩ }

def one : World ℕ ℕ := ⟨holding [(1, ⟨0, 7⟩)], [⟨0, 7⟩], 1, Function.update (fun _ => 0) 1 0⟩

def two : World ℕ ℕ :=
  ⟨holding [(1, ⟨0, 7⟩), (2, ⟨1, 8⟩)], [⟨1, 8⟩, ⟨0, 7⟩], 2, Function.update one.used 2 1⟩

/-- The pin of the second value is cloned, and that of the first is dropped. -/
def freed : World ℕ ℕ := { two with pins := [⟨1, 8⟩, ⟨1, 8⟩] }

def three : World ℕ ℕ :=
  ⟨holding [(2, ⟨1, 8⟩), (3, ⟨2, 9⟩)], [⟨2, 9⟩, ⟨1, 8⟩], 3, Function.update freed.used 3 2⟩

theorem three_reached :
    Relation.ReflTransGen (Step sizes) ⟨sample, [], 0, fun _ => 0⟩ three := by
  have hone : Step sizes ⟨sample, [], 0, fun _ => 0⟩ one :=
    .insert 1 7 0 0 0 (held []) (held []) [] (fun _ => List.Subset.refl _)
      (fun _ => List.Subset.refl _) (fun _ => List.Subset.refl _) (by decide) _ rfl
  have htwo : Step sizes one two :=
    .insert 2 8 0 0 1 (held [⟨0, 7⟩]) (held [⟨0, 7⟩]) [⟨0, 7⟩] (fun _ => List.Subset.refl _)
      (fun _ => List.Subset.refl _) (fun _ => List.Subset.refl _) (by decide) _ rfl
  have hcloned : Step sizes two { two with pins := [⟨1, 8⟩, ⟨1, 8⟩, ⟨0, 7⟩] } :=
    .clone ⟨1, 8⟩ List.mem_cons_self
  have hfreed : Step sizes { two with pins := [⟨1, 8⟩, ⟨1, 8⟩, ⟨0, 7⟩] } freed := .drop 2
  -- One of the pins is dropped between the two readings.
  have hthree : Step sizes freed three :=
    .insert 3 9 0 0 2 (held [⟨1, 8⟩, ⟨1, 8⟩]) (held [⟨1, 8⟩]) [⟨1, 8⟩]
      (fun _ => List.Subset.refl _) (fun _ => List.subset_cons_self _ _)
      (fun _ => List.Subset.refl _) (by decide) _ rfl
  exact ((((Relation.ReflTransGen.single hone).tail htwo).tail hcloned).tail hfreed).tail hthree

theorem run_reliable_three : three.Reliable sizes
    ∧ three.cache.state.entries.map Entry.key = [2, 3] ∧ three.cache.state.bytes = 288 :=
  ⟨(run_reliable (show Cache.new sizes 2 400 some = .ok sample from rfl) (by decide)
    three_reached).1, rfl, rfl⟩

/-- **A pinned key is not answered to a candidate that could not fit**: the
charge of the candidate is checked first. -/
theorem oversized_refused :
    Relation.ReflTransGen (Step sizes) ⟨sample, [], 0, fun _ => 0⟩ three
      ∧ ⟨1, 8⟩ ∈ three.pins
      ∧ three.cache.state.entries.head? = some ⟨2, ⟨1, 8⟩, 54⟩
      ∧ (three.cache.insert sizes 2 8 1000 0 (strongCount (held three.pins))
          (strongCount (held three.pins)) 3).1 = some (.error .capacity) :=
  ⟨three_reached, by simp [three], rfl, rfl⟩

end World

end BitRouter.Tenancy
