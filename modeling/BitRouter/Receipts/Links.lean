import BitRouter.Data.Forest
import BitRouter.Receipts.Steps

/-!
# Links between journals

`link_child` checks the two journals it locks and nothing else. That the links
of any number of journals form a forest is a fact about when a journal may
become a child: before it has a parent, a child or an attempt of its own.

The journals of an installation are told apart by their execution, so a family
of them has one for each execution.
-/

namespace BitRouter.Receipts

open Tenancy

/-- **The journals of an installation.** -/
abbrev Family := ExecutionId → World

/-- One operation on a family. -/
inductive Move
  | link (parent child : ExecutionId)
  | act (execution : ExecutionId) (event : Event)

/-- An operation that is half of a link. -/
def Event.isLink : Event → Bool
  | linkChild _ => true
  | linkParent _ => true
  | _ => false

namespace Family

/-- Journals that are all fresh. -/
def start (installation : InstallationId) : Family := fun execution =>
  World.start { installation, execution }

/-- A link takes effect on both journals or on neither. Any other operation is
one of a single journal. -/
def step (f : Family) : Move → Family
  | .link parent child =>
    match (f parent).journal.linkChild (f child).journal with
    | .ok (p, c) =>
      Function.update (Function.update f parent { f parent with journal := p }) child
        { f child with journal := c }
    | .error _ => f
  | .act execution event =>
    if event.isLink then f else Function.update f execution ((f execution).step event)

def run (f : Family) (moves : List Move) : Family := moves.foldl step f

/-- The links the journals record. -/
def links (f : Family) : Links ExecutionId where
  parent execution := (f execution).journal.usageEvidence.parent
  children execution := (f execution).journal.usageEvidence.children

end Family

/-! ## What a link does -/

theorem linkChild_eq_ok {parent child : Journal} {r : Journal × Journal}
    (h : parent.linkChild child = .ok r) :
    parent.owner.execution ≠ child.owner.execution ∧ child.usageEvidence.parent = none
      ∧ child.usageEvidence.children = [] ∧ parent.usageEvidence.children.length < 64
      ∧ r = ({ parent with usageEvidence := { parent.usageEvidence with
            children := parent.usageEvidence.children ++ [child.owner.execution] } },
          { child with usageEvidence := { child.usageEvidence with
            parent := some parent.owner.execution } }) := by
  obtain ⟨_, hbinding, h⟩ := bind_eq_ok.mp h
  obtain ⟨_, hphase, h⟩ := bind_eq_ok.mp h
  obtain ⟨_, hcapacity, h⟩ := bind_eq_ok.mp h
  obtain ⟨_, -, h⟩ := bind_eq_ok.mp h
  rw [ensure_eq_ok] at hbinding hphase hcapacity
  obtain ⟨-, -, -, -, hparent, hchildren⟩ := hphase
  exact ⟨hbinding.2, hparent, hchildren, hcapacity, (pure_eq_ok.mp h).symm⟩

/-- The links a journal records. -/
def Journal.links (j : Journal) : Option ExecutionId × List ExecutionId :=
  (j.usageEvidence.parent, j.usageEvidence.children)

theorem links_observe (attempt : AttemptId) (protocol : Tenancy.UsageEvidence.Protocol)
    (source : Tenancy.UsageEvidence.Source) (original : Json) (s : Snapshot) :
    (s.observe attempt protocol source original).parent = s.parent ∧
      (s.observe attempt protocol source original).children = s.children := by
  unfold Snapshot.observe
  dsimp only
  split
  · exact ⟨rfl, rfl⟩
  · split
    · exact ⟨rfl, rfl⟩
    · split
      · exact ⟨rfl, rfl⟩
      · exact ⟨rfl, rfl⟩

/-- **No operation of a single journal touches its owner or its links.** -/
theorem links_step (w : World) (e : Event) (he : e.isLink = false) :
    (w.step e).journal.owner = w.journal.owner ∧
      (w.step e).journal.links = w.journal.links := by
  have h := stepped w e
  generalize w.step e = w' at h
  cases h with
  | idle => exact ⟨rfl, rfl⟩
  | reserved => exact ⟨rfl, rfl⟩
  | armed => exact ⟨rfl, rfl⟩
  | edited => exact ⟨rfl, rfl⟩
  | dropped => exact ⟨rfl, rfl⟩
  | retained p protocol source original entry =>
    obtain ⟨hparent, hchildren⟩ :=
      links_observe entry.id protocol.wire source original w.journal.usageEvidence
    exact ⟨rfl, Prod.ext hparent hchildren⟩
  | froze => exact ⟨rfl, rfl⟩
  | noted _ s _ hnote hdone =>
    refine ⟨rfl, ?_⟩
    show Journal.links { w.journal with usageEvidence := s } = _
    rw [← hdone]
    cases e with
    | observeEstimator estimate =>
      cases hok : w.journal.observeEstimator estimate with
      | error error =>
        simp only [Event.apply, hok]
        rfl
      | ok j =>
        obtain ⟨_, -, h⟩ := bind_eq_ok.mp hok
        obtain ⟨_, -, h⟩ := bind_eq_ok.mp h
        obtain ⟨_, -, h⟩ := bind_eq_ok.mp h
        obtain rfl := pure_eq_ok.mp h
        simp only [Event.apply, hok]
        rfl
    | linkChild => cases he
    | linkParent => cases he
    | freeze => rfl
    | reserve stamp id => exact absurd rfl (hnote.2 stamp id)
    | _ => cases hnote.1

/-! ## Families -/

namespace Family

/-- **A family whose links form a forest of bounded width.** -/
structure Linked (f : Family) : Prop where
  owner : ∀ execution, (f execution).journal.owner.execution = execution
  forest : f.links.IsForest
  bounded : ∀ execution, (f.links.children execution).length ≤ 64

theorem linked_start (installation : InstallationId) : Linked (start installation) :=
  ⟨fun _ => rfl, Links.isForest_empty, fun _ => Nat.zero_le _⟩

variable {f : Family}

theorem links_of_fields {g : Family}
    (h : ∀ execution, (g execution).journal.links = (f execution).journal.links) :
    g.links = f.links := by
  have hparent : g.links.parent = f.links.parent := by
    funext execution
    exact congrArg Prod.fst (h execution)
  have hchildren : g.links.children = f.links.children := by
    funext execution
    exact congrArg Prod.snd (h execution)
  show Links.mk g.links.parent g.links.children = _
  rw [hparent, hchildren]

theorem step_act {execution : ExecutionId} {e : Event} (he : e.isLink = false) :
    f.step (.act execution e) = Function.update f execution ((f execution).step e) := by
  show (if e.isLink then f else _) = _
  rw [he]
  rfl

theorem step_link {parent child : ExecutionId} {p c : Journal}
    (h : (f parent).journal.linkChild (f child).journal = .ok (p, c)) :
    f.step (.link parent child) =
      Function.update (Function.update f parent { f parent with journal := p }) child
        { f child with journal := c } := by
  show (match (f parent).journal.linkChild (f child).journal with
    | .ok (p, c) => Function.update (Function.update f parent { f parent with journal := p }) child
        { f child with journal := c }
    | .error _ => f) = _
  rw [h]

theorem step_refused {parent child : ExecutionId} {error : Error}
    (h : (f parent).journal.linkChild (f child).journal = .error error) :
    f.step (.link parent child) = f := by
  show (match (f parent).journal.linkChild (f child).journal with
    | .ok (p, c) => Function.update (Function.update f parent { f parent with journal := p }) child
        { f child with journal := c }
    | .error _ => f) = _
  rw [h]

theorem Linked.act (h : Linked f) (execution : ExecutionId) (e : Event) :
    Linked (f.step (.act execution e)) := by
  cases he : e.isLink with
  | true =>
    have hidle : f.step (.act execution e) = f := if_pos he
    rw [hidle]
    exact h
  | false =>
    obtain ⟨howner, hlinks⟩ := links_step (f execution) e he
    have hg : f.step (.act execution e) = _ := step_act he
    generalize f.step (.act execution e) = g at hg ⊢
    have hself : g execution = (f execution).step e := by rw [hg, Function.update_self]
    have hother : ∀ other, other ≠ execution → g other = f other := fun other hne => by
      rw [hg, Function.update_of_ne hne]
    have hsame : g.links = f.links := by
      refine links_of_fields (fun other => ?_)
      by_cases heq : other = execution
      · rw [heq, hself, hlinks]
      · rw [hother other heq]
    refine ⟨fun other => ?_, ?_, ?_⟩
    · by_cases heq : other = execution
      · rw [heq, hself, howner]
        exact h.owner execution
      · rw [hother other heq]
        exact h.owner other
    · rw [hsame]
      exact h.forest
    · rw [hsame]
      exact h.bounded

/-- A link that is accepted is one edge more between two nodes, the child
isolated so far. -/
theorem Linked.link (h : Linked f) (parent child : ExecutionId) :
    Linked (f.step (.link parent child)) := by
  cases hlink : (f parent).journal.linkChild (f child).journal with
  | error e =>
    rw [step_refused hlink]
    exact h
  | ok r =>
    obtain ⟨p, c⟩ := r
    obtain ⟨hne, hparent, hchildren, hroom, heq⟩ := linkChild_eq_ok hlink
    obtain ⟨rfl, rfl⟩ := Prod.mk.inj heq
    rw [h.owner, h.owner] at hne
    have hg := step_link hlink
    generalize f.step (.link parent child) = g at hg ⊢
    have hchild : (g child).journal = { (f child).journal with
        usageEvidence := { (f child).journal.usageEvidence with parent := some parent } } := by
      rw [hg, Function.update_self, h.owner]
    have hgparent : (g parent).journal = { (f parent).journal with
        usageEvidence := { (f parent).journal.usageEvidence with
          children := (f parent).journal.usageEvidence.children ++ [child] } } := by
      rw [hg, Function.update_of_ne hne, Function.update_self, h.owner]
    have hother : ∀ x, x ≠ child → x ≠ parent → g x = f x := fun x hx hxp => by
      rw [hg, Function.update_of_ne hx, Function.update_of_ne hxp]
    have hp : g.links.parent = Function.update f.links.parent child (some parent) := by
      funext x
      show (g x).journal.usageEvidence.parent = _
      by_cases hx : x = child
      · rw [hx, hchild, Function.update_self]
      · rw [Function.update_of_ne hx]
        by_cases hxp : x = parent
        · rw [hxp, hgparent]
          rfl
        · rw [hother x hx hxp]
          rfl
    have hc : g.links.children =
        Function.update f.links.children parent (f.links.children parent ++ [child]) := by
      funext x
      show (g x).journal.usageEvidence.children = _
      by_cases hxp : x = parent
      · rw [hxp, hgparent, Function.update_self]
        rfl
      · rw [Function.update_of_ne hxp]
        by_cases hx : x = child
        · rw [hx, hchild]
          rfl
        · rw [hother x hx hxp]
          rfl
    have hlinks : g.links = f.links.link parent child := by
      show Links.mk g.links.parent g.links.children = _
      rw [hp, hc]
      rfl
    refine ⟨fun x => ?_, ?_, fun x => ?_⟩
    · by_cases hx : x = child
      · rw [hx, hchild]
        exact h.owner child
      · by_cases hxp : x = parent
        · rw [hxp, hgparent]
          exact h.owner parent
        · rw [hother x hx hxp]
          exact h.owner x
    · rw [hlinks]
      exact h.forest.link hne hparent hchildren
    · rw [hc]
      by_cases hxp : x = parent
      · rw [hxp, Function.update_self, List.length_append]
        exact hroom
      · rw [Function.update_of_ne hxp]
        exact h.bounded x

theorem Linked.run (h : Linked f) (moves : List Move) : Linked (f.run moves) := by
  induction moves generalizing f with
  | nil => exact h
  | cons move moves ih =>
    refine ih ?_
    cases move with
    | link parent child => exact h.link parent child
    | act execution e => exact h.act execution e

/-- **The links of an installation are a forest.** Whatever is linked, and
whatever else the journals do, parents and children agree, no execution has two
parents or more than 64 children, no chain of links leads back to where it
starts, and a link that is refused changes nothing. -/
theorem run_forest (installation : InstallationId) (moves : List Move) :
    let f := (start installation).run moves
    (∀ p c, f.links.parent c = some p ↔ c ∈ f.links.children p) ∧
    (∀ p, (f.links.children p).Nodup) ∧
    (∀ p p' c, c ∈ f.links.children p → c ∈ f.links.children p' → p = p') ∧
    (∀ i, ¬Relation.TransGen (fun c p => f.links.parent c = some p) i i) ∧
    (∀ p, (f.links.children p).length ≤ 64) ∧
    (∀ p c e, (f p).journal.linkChild (f c).journal = .error e → f.step (.link p c) = f) := by
  intro f
  have h : Linked f := (linked_start installation).run moves
  refine ⟨h.forest.agree, h.forest.once, fun p p' c hp hp' => ?_, h.forest.acyclic, h.bounded,
    fun p c e he => ?_⟩
  · have hparent := (h.forest.agree p c).mpr hp
    rw [(h.forest.agree p' c).mpr hp'] at hparent
    exact (Option.some.inj hparent).symm
  · exact step_refused he

end Family

end BitRouter.Receipts
