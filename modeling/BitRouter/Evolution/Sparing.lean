import BitRouter.Evolution.Deployed

/-!
# Runs that keep routes with revisions

An operation is sparing when it takes neither of the two branches that change a
route behind its revision. Over a run of sparing operations and selections, a
block at the revision it had deploys the routes it had, and so do the blocks it
was registered against. The sample run ends in one that is not sparing.
-/

namespace BitRouter.Evolution

open ControlState

variable {P : Primitives} {s s' : ControlState} {b b' next : BlockState}

/-! ## The next experiment of a block -/

/-- Two definitions whose rules start from the routes of one another agree on
what they map them to. -/
theorem ruleOf_map_congr {definition old : BlockDefinition}
    (hmatchers : definition.matchers = old.matchers) {f g : BlockRule → String}
    (h : ∀ rule ∈ definition.rules, ∃ r, old.ruleOf rule.matcher = some r ∧ f rule = g r)
    (matcher : String × Option String) :
    (definition.ruleOf matcher).map f = (old.ruleOf matcher).map g := by
  cases hrule : definition.ruleOf matcher with
  | some rule =>
    obtain ⟨hmem, rfl⟩ := BlockDefinition.ruleOf_eq_some hrule
    obtain ⟨r, hr, heq⟩ := h rule hmem
    rw [hr, Option.map_some, Option.map_some, heq]
  | none =>
    cases hold : old.ruleOf matcher with
    | none => rfl
    | some r =>
      obtain ⟨hmem, rfl⟩ := BlockDefinition.ruleOf_eq_some hold
      have hin : r.matcher ∈ definition.matchers := by
        rw [hmatchers]
        exact List.mem_toFinset.mpr (List.mem_map.mpr ⟨r, hmem, rfl⟩)
      obtain ⟨rule, hrules, heq⟩ := List.mem_map.mp (List.mem_toFinset.mp hin)
      exact absurd (decide_eq_true heq) (List.find?_eq_none.mp hrule rule hrules)

/-- **A revision that keeps the revision of its block keeps its route**, unless
the experiment before it is adopted on changed dependencies. -/
theorem Revised.deployed_eq (h : s.Sound P) {previous baseline : BlockState}
    {definition : BlockDefinition} {routingDigest : String} {reset : Bool} {passed : List String}
    (hr : Revised P s s' previous definition routingDigest reset baseline passed next)
    (hsound' : s'.genealogy.Sound P) (hfresh : reset = false → s.stale previous = false)
    (hkept : (reset || !s.baselineValid previous) = false)
    (hsame : ∀ dependency : String, s'.blocks[dependency]?.map (·.revision)
      = s.blocks[dependency]?.map (·.revision)) (hsupport : SameSupport s s' previous next)
    (matcher : String × Option String) :
    s'.deployed next matcher = s.deployed previous matcher := by
  have hsound := h.genealogy
  have hprevious := mem_of_blocks hr.current
  have hcurrent' : s'.blocks[definition.blockId]? = some next := by
    rw [hr.blocks, StrMap.getElem?_insert, if_pos rfl]
  obtain ⟨hreset, hinvalid⟩ := Bool.or_eq_false_iff.mp hkept
  have hvalid : s.baselineValid previous = true := by simpa using hinvalid
  have hself := (baselineValid_iff hsound hprevious).mp hvalid
  obtain ⟨rfl, rfl⟩ := Prod.mk.inj (Except.ok.inj (hr.supported.symm.trans hself))
  have hbaseline : Baseline s baseline baseline baseline.baselineAncestry :=
    baseline_of_ok hsound hprevious hself
  have hstatus' : next.status = .exploring := by
    rw [hr.next_eq]
    rfl
  have hdefinition' : next.definition = definition := by
    rw [hr.next_eq]
    rfl
  -- all the ancestry of the next experiment is supported
  have hself' : s'.baselineSource next = .ok (next, next.baselineAncestry) := by
    refine (baselineValid_iff hsound' (mem_of_blocks hcurrent')).mp
      (List.all_eq_true.mpr fun e he => ?_)
    obtain ⟨a, -, ha⟩ := exists_ancestor hsound' (mem_of_blocks hcurrent') he
    rw [ha, Option.any_some]
    rcases hr.ancestry_eq hsound with ⟨habsurd, -⟩ | ⟨hinherits, -, -, hconcat⟩ | ⟨-, -, hpart⟩
    · exact absurd (habsurd.symm.trans hreset) (by simp)
    · rw [hconcat, List.mem_append, List.mem_singleton] at he
      rcases he with he | rfl
      · exact hsupport.kept _ _ hbaseline e he a.block ha
      · -- the experiment before, which the next one inherits from
        obtain ⟨hmem, hblock, hid⟩ := (experiment_eq_some hsound').mp ha
        have hin : s'.archivedExperiments[baseline.experimentId]?
            = some ⟨baseline, next.experimentId⟩ := by
          rw [hr.archived, StrMap.getElem?_insert, if_pos rfl]
        have heq := eq_of_experimentId hsound' hmem (mem_of_archived hin) hid
        unfold inheritsAdoption dependenciesMatch at hinherits
        simp only [Bool.and_eq_true, decide_eq_true_eq] at hinherits
        rw [heq]
        refine (Bool.and_eq_true _ _).mpr ⟨decide_eq_true hinherits.1.2, ?_⟩
        rw [externalDependenciesMatch_congr rfl fun dependency _ => hsame dependency.1]
        exact hinherits.2.1
    · rw [hpart] at he
      exact hsupport.kept _ _ hbaseline e he a.block ha
  have hdeployed' : s'.deployed next matcher
      = (definition.ruleOf matcher).map (·.baselineRoute) := by
    unfold deployed
    rw [hstatus', if_neg (by simp), hself']
    show (next.definition.ruleOf matcher).map _ = _
    rw [hdefinition']
  rw [hdeployed']
  unfold deployed
  rw [hvalid, hself, Bool.and_true]
  have hfrom : ∀ rule ∈ definition.rules, ∃ old, baseline.definition.ruleOf rule.matcher = some old
      ∧ rule.baselineRoute = if s.inheritsAdoption baseline reset then old.challengerRoute
        else old.baselineRoute := by
    intro rule hrule
    obtain ⟨old, hold, hroute⟩ := hr.inherited rule hrule
    refine ⟨old, hold, ?_⟩
    rw [hroute, expectedBaseline, if_neg (by simp [hreset])]
  have hinherits : s.inheritsAdoption baseline reset
      = (decide (baseline.status = .adopted) && s.externalDependenciesMatch baseline) := by
    unfold inheritsAdoption dependenciesMatch
    rw [hreset, hvalid, Bool.and_true]
    rfl
  by_cases hadopted : baseline.status = .adopted
  · -- not stale, its adoption is inherited
    have hmatch : s.externalDependenciesMatch baseline = true := by
      have hnotstale := hfresh hreset
      unfold stale at hnotstale
      simpa [hadopted, hvalid] using hnotstale
    rw [hadopted, if_pos (decide_eq_true rfl)]
    refine ruleOf_map_congr hr.matchers (fun rule hrule => ?_) matcher
    obtain ⟨old, hold, hroute⟩ := hfrom rule hrule
    rw [hinherits, hadopted, hmatch, if_pos (by simp)] at hroute
    exact ⟨old, hold, hroute⟩
  · rw [if_neg (by simpa using hadopted)]
    refine ruleOf_map_congr hr.matchers (fun rule hrule => ?_) matcher
    obtain ⟨old, hold, hroute⟩ := hfrom rule hrule
    rw [hinherits, if_neg (by simp [hadopted])] at hroute
    exact ⟨old, hold, hroute⟩

/-! ## Runs -/

/-- A selection, or an operation no route slips past. -/
inductive SparingStep (P : Primitives) (s s' : ControlState) : Prop
  | select (input : Input) (enrollment : SessionEnrollment) (intent : RouteIntent) :
    s.select P input = .ok (s', enrollment, intent) → SparingStep P s s'
  | operation (op : Operation) : op.Sparing s → op.apply P s = .ok s' → SparingStep P s s'

namespace SparingStep

theorem step (h : SparingStep P s s') : Step P s s' := by
  cases h with
  | select input enrollment intent hok => exact .select input enrollment intent hok
  | operation op _ hok => exact .operation op hok

section

variable {k : String} (h : s.Sound P) (hdated : s.Dated P) (hstep : SparingStep P s s')
  (hk : s.blocks[k]? = some b)

include h hdated hstep hk

theorem rests {baseline : BlockState} {passed : List String}
    (hbaseline : Baseline s b baseline passed) {e : String} (he : e ∈ passed) {a : BlockState}
    (ha : s.experiment b.definition.blockId (some e) = some a) {dependency : String × String}
    (hmem : dependency ∈ a.definition.dependencies) :
    s'.blocks[dependency.1]?.map (·.revision) = s.blocks[dependency.1]?.map (·.revision) := by
  have hsound := h.genealogy
  obtain ⟨hexperiment, hblock, -⟩ := (experiment_eq_some hsound).mp ha
  obtain ⟨c, hc, -⟩ := hdated.recorded a hexperiment dependency hmem
  obtain ⟨c', hc', -, -, -⟩ := hstep.step.later hsound hc
  rw [hc, hc', Option.map_some, Option.map_some]
  cases hstep with
  | select input enrollment intent hok =>
    obtain ⟨f, hf, hdrawn⟩ := select_drawnState hsound hok
    rw [hf.blocks, hc] at hc'
    obtain rfl := Option.some.inj hc'
    exact congrArg some (hdrawn c (mem_of_blocks hc)).revision
  | operation op hsparing hok =>
    by_contra hchanged
    have hadvances := Operation.advances_of_changed hsound hok hc hc'
      (fun heq => hchanged (congrArg some heq))
    have hother : k ≠ dependency.1 := by
      rintro rfl
      -- no block depends on itself
      have hvalid := hsound.valid a.lineage (has_lineage hexperiment)
      refine absurd ?_ (BlockDefinition.independent_of_validate hvalid)
      show a.definition.blockId ∈ a.definition.dependencies.map (·.1)
      rw [hblock, blockId_of_blocks hsound hk]
      exact List.mem_map.mpr ⟨dependency, hmem, rfl⟩
    obtain ⟨baseline', passed', hok', hfound⟩ := exists_baselineSource hsound (mem_of_blocks hk)
    obtain ⟨rfl, rfl⟩ := hfound.unique hbaseline
    exact hsparing.unrested dependency.1 hadvances k b hk hother
      ⟨baseline', passed', hok', e, he, a, ha, List.mem_map.mpr ⟨dependency, hmem, rfl⟩⟩

/-- **A step that spares the routes keeps the route of a block that keeps its
revision.** -/
theorem deployed_eq (hk' : s'.blocks[k]? = some b') (hrevision : b'.revision = b.revision)
    (matcher : String × Option String) :
    s'.deployed b' matcher = s.deployed b matcher := by
  have hsound := h.genealogy
  have hsound' := (h.step hstep.step).genealogy
  have hsupport : SameSupport s s' b b' := hstep.step.sameSupport h hdated hk hk' hrevision
    fun baseline passed hbaseline e he a ha dependency hmem =>
      hstep.rests h hdated hk hbaseline he ha hmem
  have hcongr : b'.lineage = b.lineage → b'.status = b.status →
      s'.deployed b' matcher = s.deployed b matcher := fun hlineage hstatus =>
    deployed_congr hsound hsound' (mem_of_blocks hk) (mem_of_blocks hk') hlineage hstatus hsupport
      matcher
  cases hstep with
  | select input enrollment intent hok =>
    obtain ⟨f, hf, hdrawn⟩ := select_drawnState hsound hok
    rw [hf.blocks, hk] at hk'
    obtain rfl := Option.some.inj hk'
    exact hcongr (hdrawn b (mem_of_blocks hk)).lineage (hdrawn b (mem_of_blocks hk)).status
  | operation op hsparing hok =>
    rcases Operation.effect hsound hok with hdrawn | ⟨x, next, ht⟩ | ⟨_, _, hr⟩
      | ⟨definition, routingDigest, predecessor, reset, previous, baseline, passed, next, rfl, hr⟩
    · obtain ⟨f, hf, hdrawn⟩ := hdrawn
      rw [hf.blocks, hk] at hk'
      obtain rfl := Option.some.inj hk'
      exact hcongr (hdrawn b (mem_of_blocks hk)).lineage (hdrawn b (mem_of_blocks hk)).status
    · rw [ht.rewrites.blocks, hk] at hk'
      obtain rfl := Option.some.inj hk'
      obtain ⟨n, hn⟩ := hdated.chain k b hk
      exact hcongr (ht.became_lineage hsound (mem_of_blocks hk))
        (ht.status_of_revision hsound (mem_of_blocks hk) hn hrevision)
    · rw [hr.blocks, StrMap.getElem?_insert, if_neg, hk] at hk'
      · obtain rfl := Option.some.inj hk'
        exact hcongr rfl rfl
      · rintro rfl
        exact absurd (hk.symm.trans hr.new) (by simp)
    · by_cases hkey : definition.blockId = k
      · subst hkey
        obtain rfl := Option.some.inj (hk.symm.trans hr.current)
        rw [hr.blocks, StrMap.getElem?_insert, if_pos rfl] at hk'
        obtain rfl := Option.some.inj hk'
        -- no block changes its revision
        have hadvances : (reset || !s.baselineValid b) = false := by
          by_contra hadvanced
          obtain ⟨n, hn⟩ := hdated.chain _ b hk
          rw [Bool.not_eq_false] at hadvanced
          have hnext : next.revision
              = P.digest (.triple b.revision "rebase" next.experimentId) := by
            rw [hr.next_eq]
            exact if_pos hadvanced
          exact Later.refl.ne_advance hn "rebase" next.experimentId (hnext.symm.trans hrevision)
        have hsame : ∀ id : String, s'.blocks[id]?.map (·.revision)
            = s.blocks[id]?.map (·.revision) := by
          intro id
          rw [hr.blocks, StrMap.getElem?_insert]
          split
          · next heq =>
            rw [← heq, hk, Option.map_some, Option.map_some, hrevision]
          · rfl
        refine hr.deployed_eq h hsound' (fun hreset => ?_) hadvances hsame hsupport matcher
        exact hsparing.fresh definition routingDigest predecessor (by rw [hreset]) b hk
      · rw [hr.blocks, StrMap.getElem?_insert, if_neg hkey, hk] at hk'
        obtain rfl := Option.some.inj hk'
        exact hcongr rfl rfl

end

end SparingStep

/-- **A run that spares the routes keeps the route of a block that keeps its
revision.** A revision never returns, so it is kept by each step. -/
theorem deployed_eq_of_run (h : Reachable P s)
    (hrun : Relation.ReflTransGen (SparingStep P) s s') {k : String} (hk : s.blocks[k]? = some b)
    (hk' : s'.blocks[k]? = some b') (hrevision : b'.revision = b.revision)
    (matcher : String × Option String) : s'.deployed b' matcher = s.deployed b matcher := by
  have hreach : Reachable P s' ∧ ∃ c, s'.blocks[k]? = some c ∧ Later P b.revision c.revision
      ∧ (c.revision = b.revision → s'.deployed c matcher = s.deployed b matcher) := by
    clear hrevision hk'
    induction hrun with
    | refl => exact ⟨h, b, hk, .refl, fun _ => rfl⟩
    | @tail mid last _ hstep ih =>
      obtain ⟨hmid, c, hc, hlater, hsame⟩ := ih
      obtain ⟨c', hc', -, -, hlater'⟩ := hstep.step.later hmid.sound.genealogy hc
      refine ⟨hmid.tail hstep.step, c', hc', hlater.trans hlater', fun hback => ?_⟩
      obtain ⟨n, hn⟩ := hmid.dated.chain k c hc
      have hkept : b.revision = c.revision := hlater.antisymm hn (hback ▸ hlater')
      rw [hstep.deployed_eq hmid.sound hmid.dated hc hc' (hback.trans hkept) matcher]
      exact hsame hkept.symm
  obtain ⟨-, c, hc, -, hsame⟩ := hreach
  obtain rfl := Option.some.inj (hc.symm.trans hk')
  exact hsame hrevision

/-- **Over runs that spare the routes, equal revisions mean equal routes**, so
that dependencies that still match are what the block was registered against. -/
theorem sparing_run_keeps_routes (P : Primitives) (s s' : ControlState) (h : Reachable P s)
    (hrun : Relation.ReflTransGen (SparingStep P) s s') :
    (∀ (k : String) b b', s.blocks[k]? = some b → s'.blocks[k]? = some b' →
      b'.revision = b.revision → ∀ matcher, s'.deployed b' matcher = s.deployed b matcher)
    ∧ ∀ x ∈ s'.experiments, s.dependenciesAvailable x.definition →
      s'.externalDependenciesMatch x = true → ∀ dependency ∈ x.definition.dependencies,
        ∃ c c', s.blocks[dependency.1]? = some c ∧ s'.blocks[dependency.1]? = some c'
          ∧ ∀ matcher, s'.deployed c' matcher = s.deployed c matcher := by
  refine ⟨fun k b b' hk hk' hrevision matcher =>
    deployed_eq_of_run h hrun hk hk' hrevision matcher, ?_⟩
  intro x _ havailable hmatch dependency hmem
  obtain ⟨c, hc, hrecorded⟩ := dependenciesAvailable_recorded havailable hmem
  obtain ⟨c', hc', hrecorded'⟩ := externalDependenciesMatch_iff.mp hmatch dependency hmem
  exact ⟨c, c', hc, hc', fun matcher =>
    deployed_eq_of_run h hrun hc hc' (hrecorded'.trans hrecorded.symm) matcher⟩

namespace Sample.Rested

/-- The next experiment of `code`, which starts from the route that was adopted. -/
def nextCode : BlockDefinition := { code with rules := [⟨"main", none, "fast", "faster"⟩] }

def chat : BlockDefinition := block "chat" "talk" "talk-fast" []

def table : List Preimage :=
  [ .pair "" "",
    .definition search "r",
    .definition code "r",
    .config bandit,
    .experiment "d" 0,
    .experiment "dd" 0,
    .pair "ddddd" "s1",
    .triple "dd" "promote" "p1",
    .revision "ddddd" nextCode "r" ["ddddd"],
    .pair "dddddddd" "s2",
    .definition chat "r",
    .experiment "dddddddddd" 0,
    .triple "dddddddddd" "operator_restore" "slow" ]

noncomputable def primitives : Primitives := .ofTable table fun _ => 0

def visit (session experiment : String) : Input :=
  { Sample.input with
    sessionKey := session
    enrollment := { Sample.input.enrollment with
      blockExperiments := some (StrMap.ofPairs [("code", experiment)]) } }

/-- The adoption of `code`. -/
def moves : List Move :=
  [ .operation (.register search "r"), .operation (.register code "r"),
    .operation (.register chat "r"), .operation (.setMode .manual none "now"),
    .select (visit "s1" "ddddd"), .operation (.plan "code" "ddddd" promotion true) ]

/-- `code` is revised on what it has adopted, and then rests on the search; a session
joins its trial, and a block that nobody rests on is restored. -/
def spared : List Move :=
  [ .operation (.revise nextCode "r" "ddddd" false), .select (visit "s2" "dddddddd"),
    .operation (.plan "code" "dddddddd"
      { promotion with planId := "p2", evidenceDigest := "e2", recommendation := .hold } true),
    .operation (.restore ⟨"chat", "ddddddddddd", "dddddddddd", "slow"⟩) ]

noncomputable def spare (s : ControlState) : Move → Except String ControlState
  | .operation op => do
    ensure (op.sparing s = true) "a route would slip past"
    op.apply primitives s
  | .select input => (s.select primitives input).map (·.1)

theorem spare_step {move : Move} (h : spare s move = .ok s') : SparingStep primitives s s' := by
  cases move with
  | operation op =>
    obtain ⟨_, hsparing, hok⟩ := bind_eq_ok.mp h
    exact .operation op (Operation.sparing_sound (ensure_eq_ok.mp hsparing)) hok
  | select input =>
    obtain ⟨⟨_, enrollment, intent⟩, hok, rfl⟩ := map_eq_ok.mp h
    exact .select input enrollment intent hok

end Sample.Rested

open Sample.Rested in
/-- The sample run, after which `code` has an ancestor and the route it had. -/
theorem sparing_run_keeps_routes_restored :
    ∃ s s', moves.foldlM (Move.apply primitives) .default = .ok s
      ∧ spared.foldlM spare s = .ok s'
      ∧ (s.blocks["code"]?.any fun b => s'.blocks["code"]?.any fun b' =>
        b'.revision = b.revision && b'.baselineAncestry = ["ddddd"] && s'.RestsOn b' "search"
          && s'.deployed b' ("main", none) = some "fast")
      ∧ (∀ (k : String) b b', s.blocks[k]? = some b → s'.blocks[k]? = some b' →
        b'.revision = b.revision → ∀ matcher, s'.deployed b' matcher = s.deployed b matcher)
      ∧ ∀ x ∈ s'.experiments, s.dependenciesAvailable x.definition →
        s'.externalDependenciesMatch x = true → ∀ dependency ∈ x.definition.dependencies,
          ∃ c c', s.blocks[dependency.1]? = some c ∧ s'.blocks[dependency.1]? = some c'
            ∧ ∀ matcher, s'.deployed c' matcher = s.deployed c matcher := by
  have hrun : (moves.foldlM (Move.apply primitives) .default).toOption.any
      (fun s => (spared.foldlM spare s).toOption.any fun s' =>
        s.blocks["code"]?.any fun b => s'.blocks["code"]?.any fun b' =>
          b'.revision = b.revision && b'.baselineAncestry = ["ddddd"] && s'.RestsOn b' "search"
            && s'.deployed b' ("main", none) = some "fast") = true := by
    decide +kernel
  obtain ⟨s, hs, htest⟩ := exists_ok_of_any hrun
  obtain ⟨s', hs', hcode⟩ := exists_ok_of_any htest
  have hspared : Relation.ReflTransGen (SparingStep primitives) s s' :=
    foldlM_ok_preserves (P := fun x => Relation.ReflTransGen (SparingStep primitives) s x)
      (fun _ _ _ _ hrun hstep => hrun.tail (spare_step hstep)) .refl hs'
  exact ⟨s, s', hs, hs', hcode, sparing_run_keeps_routes primitives s s'
    (Reachable.of_moves .refl hs) hspared⟩

/-- **The revision of an adoption on changed dependencies keeps the revision of
its block and changes its route.** -/
theorem revise_keeps_revision_not_route :
    ∃ s s' b b', (Sample.moves.take 6).foldlM (Move.apply Sample.primitives) .default = .ok s
      ∧ Reachable Sample.primitives s
      ∧ (Operation.revise Sample.revisedCode "r" "dddddd" false).apply Sample.primitives s = .ok s'
      ∧ s.blocks["code"]? = some b ∧ s'.blocks["code"]? = some b' ∧ b'.revision = b.revision
      ∧ s.deployed b ("main", none) = some "fast"
      ∧ s'.deployed b' ("main", none) = some "main" := by
  have hrun : ((Sample.moves.take 6).foldlM (Move.apply Sample.primitives) .default).toOption.any
      (fun s => (Operation.revise Sample.revisedCode "r" "dddddd" false).apply Sample.primitives s
        |>.toOption.any fun s' => s.blocks["code"]?.any fun b => s'.blocks["code"]?.any fun b' =>
          b'.revision = b.revision && s.deployed b ("main", none) = some "fast"
            && s'.deployed b' ("main", none) = some "main") = true := by
    decide +kernel
  obtain ⟨s, hs, htest⟩ := exists_ok_of_any hrun
  obtain ⟨s', hs', htest⟩ := exists_ok_of_any htest
  obtain ⟨b, hb, htest⟩ := (Option.any_eq_true _ _).mp htest
  obtain ⟨b', hb', htest⟩ := (Option.any_eq_true _ _).mp htest
  simp only [Bool.and_eq_true, decide_eq_true_eq] at htest
  exact ⟨s, s', b, b', hs, Reachable.of_moves .refl hs, hs', hb, hb', htest.1.1, htest.1.2,
    htest.2⟩

end BitRouter.Evolution
