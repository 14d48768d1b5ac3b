import Mathlib.Algebra.Order.Ring.Nat
import Mathlib.Data.List.Basic
import Mathlib.Tactic.Common

/-!
# Digests of structured data

A digest of structured data hashes a byte string that spells the data out:
fixed-width counts, and the digest of each field in place of the field. The
spelling is read back from the left, so that no two values share one
(`encodeParts_inj`), as long as the hash has no collision among the strings
that were hashed and all digests are of one length.

Collision freeness is asked of a list of inputs, never of the hash: a hash
into a fixed number of bytes has collisions, and a computation hashes only
finitely many strings.
-/

namespace BitRouter

/-- No two of the inputs collide. -/
def CollisionFree (hash : List ℕ → List ℕ) (inputs : List (List ℕ)) : Prop :=
  ∀ x ∈ inputs, ∀ y ∈ inputs, hash x = hash y → x = y

theorem CollisionFree.mono {hash : List ℕ → List ℕ} {inputs inputs' : List (List ℕ)}
    (h : CollisionFree hash inputs) (hsub : inputs' ⊆ inputs) : CollisionFree hash inputs' :=
  fun x hx y hy => h x (hsub hx) y (hsub hy)

/-- All digests are of one length. -/
def Uniform (hash : List ℕ → List ℕ) (n : ℕ) : Prop := ∀ x, (hash x).length = n

/-! ## Fixed-width counts -/

/-- The last `width` base-256 digits of a number, the highest first. -/
def beBytes : ℕ → ℕ → List ℕ
  | 0, _ => []
  | width + 1, n => beBytes width (n / 256) ++ [n % 256]

@[simp] theorem length_beBytes (width n : ℕ) : (beBytes width n).length = width := by
  induction width generalizing n with
  | zero => rfl
  | succ width ih => rw [beBytes, List.length_append, ih, List.length_singleton]

variable {n : ℕ}

theorem beBytes_inj {width m : ℕ} (hn : n < 256 ^ width) (hm : m < 256 ^ width)
    (h : beBytes width n = beBytes width m) : n = m := by
  induction width generalizing n m with
  | zero => rw [pow_zero, Nat.lt_one_iff] at hn hm; rw [hn, hm]
  | succ width ih =>
    rw [pow_succ, mul_comm] at hn hm
    obtain ⟨hhigh, hlow⟩ := List.append_inj h (by simp)
    have hhigh := ih (Nat.div_lt_of_lt_mul hn) (Nat.div_lt_of_lt_mul hm) hhigh
    have hlow : n % 256 = m % 256 := List.singleton_inj.mp hlow
    rw [← Nat.div_add_mod n 256, ← Nat.div_add_mod m 256, hhigh, hlow]

/-! ## Parts of fields -/

/-- A tagged list of fields. -/
structure Part where
  tag : ℕ
  fields : List (List ℕ)
deriving DecidableEq, Repr

/-- The counts of a part fit into eight bytes. -/
structure Part.Bounded (part : Part) : Prop where
  count : part.fields.length < 256 ^ 8
  sizes : ∀ field ∈ part.fields, field.length < 256 ^ 8

section Encode

variable (hash : List ℕ → List ℕ) (domain : List ℕ)

/-- A field: its length and its digest. -/
def encodeField (field : List ℕ) : List ℕ := beBytes 8 field.length ++ hash (domain ++ field)

def encodePart (part : Part) : List ℕ :=
  part.tag :: (beBytes 8 part.fields.length ++ part.fields.flatMap (encodeField hash domain))

/-- Parts one after the other, and then their number. -/
def encodeParts (parts : List Part) : List ℕ :=
  parts.flatMap (encodePart hash domain) ++ beBytes 8 parts.length

/-- What is hashed for the fields of some parts. -/
def fieldInputs (parts : List Part) : List (List ℕ) :=
  parts.flatMap fun part => part.fields.map (domain ++ ·)

variable {hash domain}

theorem fieldInputs_append (ps qs : List Part) :
    fieldInputs domain (ps ++ qs) = fieldInputs domain ps ++ fieldInputs domain qs :=
  List.flatMap_append

theorem mem_fieldInputs {part : Part} {parts : List Part} {field : List ℕ}
    (hpart : part ∈ parts) (hfield : field ∈ part.fields) :
    domain ++ field ∈ fieldInputs domain parts :=
  List.mem_flatMap.mpr ⟨part, hpart, List.mem_map.mpr ⟨field, hfield, rfl⟩⟩

/-- Equally many fields are read back one by one. -/
theorem encodeFields_inj (huniform : Uniform hash n) {fs gs : List (List ℕ)} {s t : List ℕ}
    (hlength : fs.length = gs.length)
    (hfree : ∀ f ∈ fs, ∀ g ∈ gs, hash (domain ++ f) = hash (domain ++ g) → f = g)
    (h : fs.flatMap (encodeField hash domain) ++ s = gs.flatMap (encodeField hash domain) ++ t) :
    fs = gs ∧ s = t := by
  induction fs generalizing gs with
  | nil =>
    rw [List.length_nil, eq_comm, List.length_eq_zero_iff] at hlength
    subst hlength
    exact ⟨rfl, h⟩
  | cons f fs ih =>
    cases gs with
    | nil => exact absurd hlength (by simp)
    | cons g gs =>
      rw [List.flatMap_cons, List.flatMap_cons, List.append_assoc, List.append_assoc] at h
      have hsize : (encodeField hash domain f).length = (encodeField hash domain g).length := by
        simp [encodeField, huniform (domain ++ f), huniform (domain ++ g)]
      obtain ⟨hfield, hrest⟩ := List.append_inj h hsize
      obtain ⟨-, hdigest⟩ := List.append_inj hfield (by simp)
      have hfg := hfree f List.mem_cons_self g List.mem_cons_self hdigest
      obtain ⟨hfs, hst⟩ := ih (Nat.succ.inj hlength)
        (fun f hf g hg => hfree f (List.mem_cons_of_mem _ hf) g (List.mem_cons_of_mem _ hg)) hrest
      exact ⟨by rw [hfg, hfs], hst⟩

/-- A part is read back from the front. -/
theorem encodePart_inj (huniform : Uniform hash n) {p q : Part} {s t : List ℕ} (hp : p.Bounded)
    (hq : q.Bounded)
    (hfree : ∀ f ∈ p.fields, ∀ g ∈ q.fields, hash (domain ++ f) = hash (domain ++ g) → f = g)
    (h : encodePart hash domain p ++ s = encodePart hash domain q ++ t) : p = q ∧ s = t := by
  unfold encodePart at h
  rw [List.cons_append, List.cons_append, List.cons.injEq, List.append_assoc,
    List.append_assoc] at h
  obtain ⟨htag, h⟩ := h
  obtain ⟨hcount, h⟩ := List.append_inj h (by simp)
  have hlength := beBytes_inj hp.count hq.count hcount
  obtain ⟨hfields, hst⟩ := encodeFields_inj huniform hlength hfree h
  cases p with
  | mk tag fields =>
    cases q with
    | mk tag' fields' =>
      cases htag
      cases hfields
      exact ⟨rfl, hst⟩

theorem flatMap_encodePart_inj (huniform : Uniform hash n) {ps qs : List Part} {s t : List ℕ}
    (htail : s.length = t.length) (hps : ∀ p ∈ ps, p.Bounded) (hqs : ∀ q ∈ qs, q.Bounded)
    (hfree : CollisionFree hash (fieldInputs domain (ps ++ qs)))
    (h : ps.flatMap (encodePart hash domain) ++ s = qs.flatMap (encodePart hash domain) ++ t) :
    ps = qs := by
  have hpart : ∀ p : Part, 0 < (encodePart hash domain p).length := by simp [encodePart]
  induction ps generalizing qs with
  | nil =>
    cases qs with
    | nil => rfl
    | cons q qs =>
      have hlength := congrArg List.length h
      have hq := hpart q
      simp only [List.flatMap_nil, List.flatMap_cons, List.nil_append, List.length_append]
        at hlength
      omega
  | cons p ps ih =>
    cases qs with
    | nil =>
      have hlength := congrArg List.length h
      have hp := hpart p
      simp only [List.flatMap_nil, List.flatMap_cons, List.nil_append, List.length_append]
        at hlength
      omega
    | cons q qs =>
      rw [List.flatMap_cons, List.flatMap_cons, List.append_assoc, List.append_assoc] at h
      obtain ⟨hp, hps⟩ := List.forall_mem_cons.mp hps
      obtain ⟨hq, hqs⟩ := List.forall_mem_cons.mp hqs
      have hfields : ∀ f ∈ p.fields, ∀ g ∈ q.fields,
          hash (domain ++ f) = hash (domain ++ g) → f = g := by
        intro f hf g hg heq
        have hmem : domain ++ f ∈ fieldInputs domain (p :: ps ++ q :: qs) :=
          mem_fieldInputs (by simp) hf
        have hmem' : domain ++ g ∈ fieldInputs domain (p :: ps ++ q :: qs) :=
          mem_fieldInputs (by simp) hg
        exact List.append_cancel_left (hfree _ hmem _ hmem' heq)
      obtain ⟨hpq, h⟩ := encodePart_inj huniform hp hq hfields h
      have hrest : CollisionFree hash (fieldInputs domain (ps ++ qs)) := by
        refine hfree.mono fun x hx => ?_
        rw [fieldInputs_append, List.mem_append] at hx
        rw [fieldInputs_append, List.mem_append]
        exact hx.imp (List.mem_append_right _) (List.mem_append_right _)
      rw [hpq, ih hps hqs hrest h]

/-- **The spelling of some parts determines them.** -/
theorem encodeParts_inj (huniform : Uniform hash n) {ps qs : List Part}
    (hps : ∀ p ∈ ps, p.Bounded) (hqs : ∀ q ∈ qs, q.Bounded)
    (hfree : CollisionFree hash (fieldInputs domain (ps ++ qs)))
    (h : encodeParts hash domain ps = encodeParts hash domain qs) : ps = qs :=
  flatMap_encodePart_inj huniform (by simp) hps hqs hfree h

end Encode

/-! ## A hash by a table -/

/-- A big-endian number, reduced. -/
def fingerprint (input : List ℕ) : ℕ :=
  input.foldl (fun n byte => (n * 256 + byte) % (2 ^ 61 - 1)) 0

def tabulated (table : List (ℕ × ℕ)) (input : List ℕ) : List ℕ :=
  beBytes 32 ((table.lookup (fingerprint input)).getD 0)

theorem uniform_tabulated (table : List (ℕ × ℕ)) : Uniform (tabulated table) 32 :=
  fun _ => length_beBytes 32 _

end BitRouter
