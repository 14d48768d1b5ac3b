import BitRouter.Evolution.Sessions

/-!
# What every session can rely on

Whatever happens to the blocks, a session keeps what its first request fixed, a
request gets one answer, and a session that is not entitled to the challenger
of an experiment gets the route of the baseline in force. That baseline is an
ancestor's once an ancestor is withdrawn, and its route can be the very one the
experiment was to try.
-/

namespace BitRouter.Evolution

open ControlState

namespace Store

variable {P : Primitives} {C : Clock} {store store' : Store}

/-- **What a session keeps between two stores.** -/
structure Keeps (P : Primitives) (C : Clock) (store store' : Store) : Prop where
  /-- An enrollment stays as it is: its assignments, adopted policies and pins. -/
  enrollment : ∀ (key : String) e, store.enrollments[key]? = some e →
    store'.enrollments[key]? = some e
  /-- The first request of a session pins the current experiments, and takes as
  adopted only what is. -/
  entered : ∀ r store'' i, store'.enrollments[C.keyOf r.identity]? = none →
    store'.selectWithBypass P C r = .ok (store'', some i) →
    ∃ e pins, store''.enrollments[C.keyOf r.identity]? = some e ∧ e.blockExperiments = some pins
      ∧ (∀ id : String, pins[id]? = store'.state.blocks[id]?.map (·.experimentId))
      ∧ ∀ (id x : String), e.adoptedBlocks[id]? = some x → ∃ b, store'.state.blocks[id]? = some b
        ∧ b.experimentId = x ∧ b.status = .adopted
  /-- A request is answered once. -/
  replayed : ∀ r i, store.intents[r.requestId]? = some i → ∀ store'' answer,
    store'.selectWithBypass P C r = .ok (store'', answer) → answer = some i ∧ store'' = store'
  /-- A pinned experiment is never replaced by a later one. -/
  pinned : ∀ (key : String) e, store.enrollments[key]? = some e → e.blockExperiments.isSome = true →
    ∀ (id : String) b, store.state.pinned e id = .ok (some b) →
      ∃ b', store'.state.pinned e id = .ok (some b') ∧ b'.lineage = b.lineage
  /-- Without pins the records of the session name its experiment, or it is the
  original one. -/
  legacy : ∀ e : SessionEnrollment, e.blockExperiments = none → ∀ (id : String) b,
    store'.state.pinned e id = .ok (some b) →
      (∃ a, e.assignments[id]? = some a ∧ b.experimentId = a.experimentId)
        ∨ e.adoptedBlocks[id]? = some b.experimentId ∨ b.predecessorExperimentId = none
  /-- A route that a block decides is the challenger of the experiment the
  session knows, for an entitled session, or the one of the baseline in force.
  Once its trial epoch is revoked, only an adoption brings a challenger back. -/
  routed : ∀ r store'' i (id : String), store'.intents[r.requestId]? = none →
    store'.selectWithBypass P C r = .ok (store'', some i) → i.appliedBlock = some id →
    ∃ e block rule baselineRule, store''.enrollments[C.keyOf r.identity]? = some e
      ∧ Routed store''.state r.context r.dependencies.trialReady e id i.selectedRoute block rule
        baselineRule
      ∧ (e.entitled id block = false → i.selectedRoute = baselineRule.baselineRoute)
      ∧ ∀ a, store.enrollments[C.keyOf r.identity]? = some e → e.assignment id block = some a →
        a.trialEpoch ≠ store.state.trialEpoch →
        store''.state.candidate e r.dependencies.trialReady id block = true →
          block.status = .adopted

theorem Sound.entered (h : store.Sound P C) {r : Request} {i : RouteIntent}
    (hnew : store.enrollments[C.keyOf r.identity]? = none)
    (hok : store.selectWithBypass P C r = .ok (store', some i)) :
    ∃ e pins, store'.enrollments[C.keyOf r.identity]? = some e ∧ e.blockExperiments = some pins
      ∧ (∀ id : String, pins[id]? = store.state.blocks[id]?.map (·.experimentId))
      ∧ ∀ (id x : String), e.adoptedBlocks[id]? = some x → ∃ b, store.state.blocks[id]? = some b
        ∧ b.experimentId = x ∧ b.status = .adopted := by
  generalize hanswer : some i = answer at hok
  cases selectWithBypass_eq_ok hok with
  | absent _ => exact absurd hanswer (by simp)
  | replayed intent hintent hidentity =>
    obtain ⟨-, e, he⟩ := h.enrolled _ intent hintent
    rw [hidentity] at he
    exact absurd (he.symm.trans hnew) (by simp)
  | selected s s' input e intent hcontrol _ _ _ _ hkey _ hfits hfirst hselect =>
    have hstate : store.state = s := by
      unfold Store.state
      rw [hcontrol]
      rfl
    rcases hfits with ⟨hisNew, -⟩ | ⟨-, hstored⟩
    · obtain ⟨head, b, hfirst⟩ := hfirst hisNew
      obtain ⟨-, hadmitted, -⟩ := select_eq_ok hselect
      refine ⟨e, _, ?_, hadmitted.pins.trans (congrArg (·.blockExperiments) hfirst), ?_, ?_⟩
      · show (if input.isNew = true then _ else _ : StrMap SessionEnrollment)[_]? = _
        rw [if_pos hisNew, hkey, StrMap.getElem?_insert, if_pos rfl]
      · intro id
        have hpins := StrMap.getElem?_ofPairs_filter s.blocks (fun _ => true) (·.experimentId) id
        rw [List.filter_eq_self.mpr fun _ _ => rfl] at hpins
        rw [hstate]
        refine hpins.trans ?_
        cases s.blocks[id]? <;> rfl
      · intro id x hx
        rw [hadmitted.adopted, hfirst] at hx
        have hread := StrMap.getElem?_ofPairs_filter s.blocks (fun entry => b.creationRecorded
          && !b.started && b.prompts ≤ 1 && entry.2.status = .adopted) (·.experimentId) id
        obtain ⟨block, hblock, rfl⟩ := Option.map_eq_some_iff.mp (hread.symm.trans hx)
        obtain ⟨hfound, htest⟩ := Option.filter_eq_some_iff.mp hblock
        obtain ⟨-, hadopted⟩ := (Bool.and_eq_true _ _).mp htest
        exact ⟨block, hstate ▸ hfound, rfl, of_decide_eq_true hadopted⟩
    · rw [hkey] at hstored
      exact absurd (hstored.symm.trans hnew) (by simp)

theorem routed_of_selected {r : Request} {i : RouteIntent} {id : String}
    (hnew : store.intents[r.requestId]? = none)
    (hok : store.selectWithBypass P C r = .ok (store', some i))
    (happlied : i.appliedBlock = some id) :
    ∃ e block rule baselineRule, store'.enrollments[C.keyOf r.identity]? = some e
      ∧ Routed store'.state r.context r.dependencies.trialReady e id i.selectedRoute block rule
        baselineRule := by
  generalize hanswer : some i = answer at hok
  cases selectWithBypass_eq_ok hok with
  | absent _ => exact absurd hanswer (by simp)
  | replayed intent hintent _ => exact absurd (hintent.symm.trans hnew) (by simp)
  | selected s s' input e intent hcontrol _ _ hcontext hdependencies hkey _ hfits _ hselect =>
    obtain rfl := Option.some.inj hanswer
    obtain ⟨-, -, routing, hrouting, rfl⟩ := select_eq_ok hselect
    rcases route_eq_ok hrouting with ⟨hnone, -⟩ | ⟨id', block, rule, baselineRule, hid, hrouted⟩
    · exact absurd (happlied.symm.trans hnone) (by simp)
    · obtain rfl := Option.some.inj (hid.symm.trans happlied)
      rw [hcontext, hdependencies] at hrouted
      refine ⟨e, block, rule, baselineRule, ?_, hrouted⟩
      show (if input.isNew = true then _ else _ : StrMap SessionEnrollment)[_]? = _
      rcases hfits with ⟨hisNew, -⟩ | ⟨hold, hstored⟩
      · rw [if_pos hisNew, hkey, StrMap.getElem?_insert, if_pos rfl]
      · obtain ⟨-, rfl⟩ := select_known hold hselect
        rw [hold, if_neg (by simp), ← hkey]
        exact hstored

/-- **Every session keeps its policy**, over everything that happens to the
blocks and to other sessions between its requests. -/
theorem reachable_keeps (P : Primitives) (C : Clock) (owner : String) (store store' : Store)
    (h : Reachable P C owner store) (hrun : Relation.ReflTransGen (Step P C) store store') :
    Keeps P C store store' := by
  have hsound := h.sound
  obtain ⟨hsound', hextends⟩ := hsound.extends hrun
  refine
    { enrollment := hextends.enrollments
      entered := fun r store'' i hnew hok => hsound'.entered hnew hok
      replayed := ?_
      pinned := fun key e _ hpins id b hb => pinned_of_moved hsound.state.genealogy
        hsound'.state.genealogy hextends.moved hpins hb
      legacy := fun e hlegacy id b hb => pinned_of_legacy hsound'.state.genealogy hlegacy hb
      routed := ?_ }
  · intro r i hi store'' answer hok
    have hi' := hextends.intents _ i hi
    cases selectWithBypass_eq_ok hok with
    | absent hnone => exact absurd hnone (hsound'.enrolled _ i hi').1
    | replayed intent hintent _ => exact ⟨hintent.symm.trans hi', rfl⟩
    | selected _ _ _ _ _ _ hnone => exact absurd (hi'.symm.trans hnone) (by simp)
  · intro r store'' i id hnew hok happlied
    obtain ⟨e, block, rule, baselineRule, he, hrouted⟩ := routed_of_selected hnew hok happlied
    refine ⟨e, block, rule, baselineRule, he, hrouted, hrouted.of_not_entitled, ?_⟩
    intro a hbefore ha hrevoked hcandidate
    refine (entitled_of_candidate hcandidate).2.resolve_right ?_
    rintro ⟨a', ha', -, hepoch⟩
    obtain rfl := Option.some.inj (ha'.symm.trans ha)
    -- the epoch of the assignment was over, and epochs only grow
    obtain ⟨hassigned, -⟩ := Option.filter_eq_some_iff.mp ha
    have hle := hsound.epochs _ e hbefore id a' hassigned
    have hgrown := hextends.trialEpoch
    have hlast := ((selectWithBypass_eq_ok hok).step hsound').2.trialEpoch
    exact hrevoked (Nat.le_antisymm hle (by omega))

/-! ## A sample run

A block is adopted and revised to go back; a session is drawn into the baseline
of the revision, and the adoption is withdrawn under it. -/

/-- What happens to a store. -/
inductive Event where
  | operation (op : Operation)
  | request (r : Request)

def apply (P : Primitives) (C : Clock) (store : Store) : Event → Except String Store
  | .operation op => (op.apply P store.state).map fun s => { store with control := some s }
  | .request r => (store.selectWithBypass P C r).map (·.1)

theorem Step.of_apply {event : Event} (h : store.apply P C event = .ok store') :
    Step P C store store' := by
  cases event with
  | operation op =>
    obtain ⟨s', hok, rfl⟩ := map_eq_ok.mp h
    exact .operation op s' hok
  | request r =>
    obtain ⟨⟨_, intent⟩, hok, rfl⟩ := map_eq_ok.mp h
    exact .request r _ intent hok

theorem Reachable.of_events {owner : String} {events : List Event} (h : Reachable P C owner store)
    (hok : events.foldlM (apply P C) store = .ok store') : Reachable P C owner store' :=
  foldlM_ok_preserves (fun _ _ _ _ hreach hstep => hreach.tail (.of_apply hstep)) h hok

end Store

namespace Sample.Reverted

def forth : BlockDefinition := block "code" "main" "fast" []

/-- The revision that tries the old route again. -/
def back : BlockDefinition := { forth with rules := [⟨"main", none, "fast", "main"⟩] }

def table : List Preimage :=
  [ .pair "" "",
    .definition forth "r1",
    .config bandit,
    .experiment "d" 0,
    .pair "ddd" "n1",
    .triple "d" "promote" "p1",
    .revision "ddd" back "r2" ["ddd"],
    .pair "dddddd" "n2",
    .triple "ddddd" "withdraw_unsupported_promotion" "p2",
    .triple "ddddd" "baseline_withdrawn" "ddd" ]

noncomputable def primitives : Primitives := .ofTable table id

def clock : Clock where
  keyOf := (·.nativeSessionId)
  instant := fun _ => .ok 0

/-- A request of a session that has just been created. -/
def request (session id : String) (dependencies : RoutingDependencies) (seed : ℕ) : Request where
  identity := ⟨"o", "codex", session⟩
  requestId := id
  context := context
  dependencies := dependencies
  bypass := none
  session := some ⟨false, "o", "codex", "new", none, 0⟩
  captured := [⟨"session/new", .response, false, "t"⟩]
  seed := fun _ => seed
  recordedAt := ""

def promotion : BatchPlan := { Sample.promotion with configDigest := "dd" }

def withdrawal : BatchPlan :=
  { promotion with planId := "p2", evidenceDigest := "e2", recommendation := .hold }

def revised : RoutingDependencies :=
  ⟨StrMap.ofPairs [("code", "r2")], StrMap.ofPairs [("ddd", "r1")], true, none⟩

/-- The run up to the assignment of the session `n2`. -/
def opening : List Store.Event :=
  [ .operation (.register forth "r1"),
    .operation (.setMode .manual none "t"),
    .request (request "n1" "q1" ⟨StrMap.ofPairs [("code", "r1")], ∅, true, none⟩ 0),
    .operation (.plan "code" "ddd" promotion true),
    .operation (.revise back "r2" "ddd" false),
    .request (request "n2" "q2" revised 900000) ]

/-- The withdrawal of what the revision was built on. -/
def closing : List Store.Event := [.operation (.plan "code" "ddd" withdrawal true)]

def last : Request := request "n2" "q3" revised 0

end Sample.Reverted

namespace Store

open Sample.Reverted

/-- The sample run keeps what its sessions have. -/
theorem reachable_keeps_reverted :
    ∃ store store', opening.foldlM (apply primitives clock) ⟨"o", none, ∅, ∅⟩ = .ok store
      ∧ closing.foldlM (apply primitives clock) store = .ok store'
      ∧ Keeps primitives clock store store' := by
  have hrun : (opening.foldlM (apply primitives clock) ⟨"o", none, ∅, ∅⟩).toOption.any
      (fun store => (closing.foldlM (apply primitives clock) store).isOk) = true := by
    decide +kernel
  obtain ⟨store, hopening, htest⟩ := exists_ok_of_any hrun
  obtain ⟨store', hclosing⟩ := exists_ok_of_isOk htest
  have hreach : Reachable primitives clock "o" store := .of_events .refl hopening
  have hlater : Relation.ReflTransGen (Step primitives clock) store store' :=
    foldlM_ok_preserves (P := fun x => Relation.ReflTransGen (Step primitives clock) store x)
      (fun _ _ _ _ hrun hstep => hrun.tail (.of_apply hstep)) .refl hclosing
  exact ⟨store, store', hopening, hclosing,
    reachable_keeps primitives clock "o" store store' hreach hlater⟩

/-- **A session drawn into the baseline gets the challenger's route** once the
baseline in force is an ancestor's, which started from that route. -/
theorem baseline_gets_challenger_route :
    ∃ store store' i e b a, Reachable primitives clock "o" store
      ∧ (opening ++ closing).foldlM (apply primitives clock) ⟨"o", none, ∅, ∅⟩ = .ok store
      ∧ store.selectWithBypass primitives clock last = .ok (store', some i)
      ∧ store.enrollments["n2"]? = some e ∧ store.state.blocks["code"]? = some b
      ∧ e.assignments["code"]? = some a ∧ a.experimentId = b.experimentId ∧ a.arm = .baseline
      ∧ b.definition.ruleOf ("main", none) = some ⟨"main", none, "fast", "main"⟩
      ∧ i.appliedBlock = some "code" ∧ i.selectedRoute = "main" := by
  have hrun : ((opening ++ closing).foldlM (apply primitives clock)
      ⟨"o", none, ∅, ∅⟩).toOption.any (fun store =>
        (store.selectWithBypass primitives clock last).toOption.any fun (_, answer) =>
          answer.any fun i => store.enrollments["n2"]?.any fun e =>
            store.state.blocks["code"]?.any fun b => e.assignments["code"]?.any fun a =>
              a.experimentId = b.experimentId && a.arm = .baseline
                && b.definition.ruleOf ("main", none) = some ⟨"main", none, "fast", "main"⟩
                && i.appliedBlock = some "code" && i.selectedRoute = "main") = true := by
    decide +kernel
  obtain ⟨store, hopened, htest⟩ := exists_ok_of_any hrun
  obtain ⟨⟨store', answer⟩, hok, hanswer⟩ := exists_ok_of_any htest
  obtain ⟨i, rfl, hroutes⟩ := (Option.any_eq_true _ _).mp hanswer
  obtain ⟨e, he, htest⟩ := (Option.any_eq_true _ _).mp hroutes
  obtain ⟨b, hb, htest⟩ := (Option.any_eq_true _ _).mp htest
  obtain ⟨a, ha, htest⟩ := (Option.any_eq_true _ _).mp htest
  simp only [Bool.and_eq_true, decide_eq_true_eq] at htest
  obtain ⟨⟨⟨⟨hexperiment, harm⟩, hrule⟩, happlied⟩, hroute⟩ := htest
  exact ⟨store, store', i, e, b, a, .of_events .refl hopened, hopened, hok, he, hb, ha,
    hexperiment, harm, hrule, happlied, hroute⟩

end Store

end BitRouter.Evolution
