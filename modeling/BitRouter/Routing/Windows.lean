import BitRouter.Routing.Owners

/-!
# Rolling windows

Where every request puts the same limit on a lane, what is sent in any sixty seconds,
together with the guards that may still be sent in them, is within the limit. The
buckets cover what was sent for as long as it can matter (`Window.covers`): a bucket
is never older than its sends, and it is dropped by a clock that no later admission
can be behind.
-/

namespace BitRouter.Routing

variable {runtime : Runtime} {world world' : World} {op : Op} {lane : Lane} {limit : UInt32}

def minute : ℕ := 60 * second

/-- **The limit of a lane is constant**: every request puts this limit on it. -/
def Limited (lane : Lane) (limit : UInt32) : Op → Prop
  | .admission _ key _ limits _ => ∀ bound, limits.of key lane = some bound → bound = some limit
  | _ => True

def sendsIn (lane : Lane) (start stop : ℕ) (sends : List Send) : ℕ :=
  sends.countP fun send => send.uses lane && (decide (start ≤ send.now) && decide (send.now < stop))

/-- What is sent on a lane from a second on. -/
def sendsFrom (lane : Lane) (tick : ℕ) (sends : List Send) : ℕ :=
  sends.countP fun send => send.uses lane && decide (tick ≤ tickOf send.now)

/-- The guards that may still be sent before an instant. -/
def sendable (lane : Lane) (stop : ℕ) (guards : List Held) : ℕ :=
  guards.countP fun held => held.pending lane && decide (held.since < stop)

/-- **A lane is within its limit.** -/
structure Window (lane : Lane) (limit : UInt32) (world : World) : Prop where
  quota : (world.state.rate lane).pending + Buckets.total (world.state.rate lane).seconds
    ≤ limit.toNat
  stamps : ∀ b ∈ (world.state.rate lane).seconds, b.1 ≤ tickOf world.latest
  covers : ∀ tick, tickOf world.latest < tick + rateBuckets →
    sendsFrom lane tick world.sends ≤ Buckets.since tick (world.state.rate lane).seconds
  bounded : ∀ start, sendsIn lane start (start + minute) world.sends
    + sendable lane (start + minute) world.guards ≤ limit.toNat

/-! ## Counts -/

theorem tickOf_mono {now now' : ℕ} (h : now ≤ now') : tickOf now ≤ tickOf now' :=
  Nat.div_le_div_right h

theorem sendsIn_le_sendsFrom (start stop : ℕ) (sends : List Send) :
    sendsIn lane start stop sends ≤ sendsFrom lane (tickOf start) sends := by
  refine List.countP_mono_left fun send _ h => ?_
  simp only [Bool.and_eq_true, decide_eq_true_eq] at h ⊢
  exact ⟨h.1, tickOf_mono h.2.1⟩

theorem sendable_le (stop : ℕ) (guards : List Held) :
    sendable lane stop guards ≤ guards.countP (Held.pending lane) :=
  List.countP_mono_left fun _ _ h => (Bool.and_eq_true_iff.mp h).1

theorem sendable_split (stop : ℕ) (front back : List Held) (held : Held) :
    sendable lane stop (front ++ held :: back) = sendable lane stop (front ++ back)
      + if held.pending lane = true ∧ held.since < stop then 1 else 0 := by
  unfold sendable
  rw [countP_split, List.countP_append]
  simp only [Bool.and_eq_true, decide_eq_true_eq]

theorem sendable_of_not_pending {stop : ℕ} {front back : List Held} {held : Held}
    (h : held.pending lane = false) :
    sendable lane stop (front ++ held :: back) = sendable lane stop (front ++ back) := by
  rw [sendable_split, h]
  rfl

theorem lane_of_uses {key : Key} {limits : Limits} {guard : Admission} (hkey : guard.key = key)
    (hprovider : guard.provider = limits.providerKey key) (h : guard.uses lane = true) :
    ∃ bound, limits.of key lane = some bound := by
  cases lane with
  | target key' => exact ⟨limits.model, if_pos (hkey ▸ of_decide_eq_true h)⟩
  | provider key' =>
    exact ⟨limits.provider.map Prod.snd, if_pos (hprovider ▸ of_decide_eq_true h)⟩

/-! ## Moves -/

theorem Window.init : Window lane limit {} where
  quota := by cases lane <;> exact Nat.zero_le _
  stamps b hb := by cases lane <;> cases hb
  covers tick _ := Nat.zero_le _
  bounded start := Nat.zero_le _

section

variable (h : Window lane limit world)

include h

theorem Window.aging {now : ℕ} {state' : State} (haging : Aging now world.state state')
    {latest' : ℕ} (hlatest : world.latest ≤ latest') (hnow : now ≤ latest') :
    Window lane limit { world with state := state', latest := latest' } := by
  have hcounts := haging.counts lane
  have hcovers : ∀ tick, tickOf latest' < tick + rateBuckets →
      sendsFrom lane tick world.sends ≤ Buckets.since tick (world.state.rate lane).seconds :=
    fun tick htick => h.covers tick ((tickOf_mono hlatest).trans_lt htick)
  refine ⟨?_, fun b hb => ?_, fun tick htick => ?_, h.bounded⟩
  · show (state'.rate lane).pending + Buckets.total (state'.rate lane).seconds ≤ _
    rw [hcounts.2]
    refine le_trans (Nat.add_le_add_left ?_ _) h.quota
    rcases haging.rate lane with hrate | hrate
    · rw [hrate]
    · rw [hrate]
      exact Buckets.total_expire_le
  · refine le_trans (h.stamps b ?_) (tickOf_mono hlatest)
    have hmem : b ∈ (state'.rate lane).seconds := hb
    rcases haging.rate lane with hrate | hrate
    · rwa [hrate] at hmem
    · rw [hrate] at hmem
      exact Buckets.expire_sublist.subset hmem
  · show _ ≤ Buckets.since tick (state'.rate lane).seconds
    rcases haging.rate lane with hrate | hrate
    · rw [hrate]
      exact hcovers tick htick
    · rw [hrate]
      show _ ≤ Buckets.since tick (Buckets.expire rateBuckets (tickOf now) _)
      rw [Buckets.since_expire (by decide) ((tickOf_mono hnow).trans_lt htick)]
      exact hcovers tick htick

/-- **A minute that is not over is in the window.** -/
theorem Window.sendsIn_le {start : ℕ} (hlatest : world.latest < start + minute) :
    sendsIn lane start (start + minute) world.sends
      ≤ Buckets.total (world.state.rate lane).seconds := by
  have hstart : tickOf world.latest < tickOf start + rateBuckets := by
    unfold tickOf rateBuckets
    unfold minute second at hlatest
    unfold second
    omega
  exact (sendsIn_le_sendsFrom start (start + minute) world.sends).trans
    ((h.covers (tickOf start) hstart).trans (Buckets.since_le_total _ _))

/-- **An admission leaves room.** What was sent within sixty seconds of the latest
sample is still in the window. -/
theorem Window.admitted {guard : Admission} {state' : State} {since : ℕ}
    (hpending : (world.state.rate lane).pending = world.guards.countP (Held.pending lane))
    (hrate : state'.rate lane = if guard.uses lane then (world.state.rate lane).admitOne
      else world.state.rate lane)
    (havailable : guard.uses lane → (world.state.rate lane).available limit = true)
    (hsince : world.latest ≤ since) (hlive : guard.finished = false) (hunsent : guard.sent = none) :
    Window lane limit { world with
      state := state', guards := world.guards ++ [⟨guard, since⟩] } := by
  have hseconds : (state'.rate lane).seconds = (world.state.rate lane).seconds := by
    rw [hrate]
    split <;> rfl
  have hwaits : Held.pending lane ⟨guard, since⟩ = guard.uses lane :=
    pending_of_unsent _ hlive hunsent
  refine ⟨?_, ?_, ?_, fun start => ?_⟩
  · show (state'.rate lane).pending + Buckets.total (state'.rate lane).seconds ≤ _
    rw [hseconds, hrate]
    split
    · next huses =>
      have hroom := Rate.available_iff.mp (havailable huses)
      show (world.state.rate lane).pending + 1 + _ ≤ _
      omega
    · exact h.quota
  · show ∀ b ∈ (state'.rate lane).seconds, _
    rw [hseconds]
    exact h.stamps
  · show ∀ tick, _ → _ ≤ Buckets.since tick (state'.rate lane).seconds
    rw [hseconds]
    exact h.covers
  · show sendsIn lane start (start + minute) world.sends
      + sendable lane (start + minute) (world.guards ++ [⟨guard, since⟩]) ≤ _
    rw [sendable_split, List.append_nil, hwaits]
    split
    · next hnew =>
      have hroom := Rate.available_iff.mp (havailable hnew.1)
      have hsends := h.sendsIn_le (hsince.trans_lt hnew.2)
      have hwaiting : sendable lane (start + minute) world.guards ≤ _ := sendable_le _ _
      omega
    · exact h.bounded start

/-- **A send is counted** where its guard was. -/
theorem Window.sent {front back : List Held} {held : Held} {now : ℕ} {state' : State}
    (hguards : world.guards = front ++ held :: back)
    (hpending : (world.state.rate lane).pending = world.guards.countP (Held.pending lane))
    (hsent : SentFrom held.guard now world.state state') (htimely : held.since ≤ now) :
    Window lane limit
      { state := state'
        guards := front ++ held.sent now :: back
        latest := max world.latest now
        sends := world.sends ++ [⟨held.guard.key, held.guard.provider, now⟩] } := by
  have hwaits : held.pending lane = held.guard.uses lane :=
    pending_of_unsent held hsent.unfinished hsent.unsent
  have hgone : (held.sent now).pending lane = false := pending_of_sent (held.sent now) rfl
  have huses : Send.uses ⟨held.guard.key, held.guard.provider, now⟩ lane
      = held.guard.uses lane := by
    cases lane <;> rfl
  have hlatest : tickOf world.latest ≤ tickOf (max world.latest now) :=
    tickOf_mono (le_max_left _ _)
  have hnow : tickOf now ≤ tickOf (max world.latest now) := tickOf_mono (le_max_right _ _)
  have hsmall : limit.toNat < 4294967296 := limit.toNat_lt
  have hquota := h.quota
  cases hlane : held.guard.uses lane with
  | false =>
    have hrate : state'.rate lane = world.state.rate lane := by
      rw [hsent.rate, hlane]
      rfl
    refine ⟨?_, fun b hb => ?_, fun tick htick => ?_, fun start => ?_⟩
    · show (state'.rate lane).pending + _ ≤ _
      rw [hrate]
      exact hquota
    · have hmem : b ∈ (state'.rate lane).seconds := hb
      rw [hrate] at hmem
      exact (h.stamps b hmem).trans hlatest
    · show sendsFrom lane tick (world.sends ++ [_]) ≤ Buckets.since tick (state'.rate lane).seconds
      rw [hrate]
      unfold sendsFrom
      rw [List.countP_append, List.countP_singleton, huses, hlane, Bool.false_and,
        if_neg Bool.false_ne_true]
      exact h.covers tick (hlatest.trans_lt htick)
    · show sendsIn lane start _ (world.sends ++ [_])
        + sendable lane _ (front ++ held.sent now :: back) ≤ _
      have hbefore := h.bounded start
      rw [hguards, sendable_of_not_pending (hwaits.trans hlane)] at hbefore
      rw [sendable_of_not_pending hgone]
      unfold sendsIn at hbefore ⊢
      rw [List.countP_append, List.countP_singleton, huses, hlane, Bool.false_and,
        if_neg Bool.false_ne_true]
      exact hbefore
  | true =>
    have hrate : state'.rate lane = (world.state.rate lane).sent (tickOf now) := by
      rw [hsent.rate, hlane]
      rfl
    -- the guard itself was waiting, so no count is at its cap
    have hpos : 0 < (world.state.rate lane).pending := by
      rw [hpending, hguards, countP_split, hwaits, hlane]
      exact Nat.succ_pos _
    refine ⟨?_, fun b hb => ?_, fun tick htick => ?_, fun start => ?_⟩
    · show (state'.rate lane).pending + Buckets.total (state'.rate lane).seconds ≤ _
      rw [hrate]
      have hrecord : Buckets.total (Buckets.record rateBuckets u64Max (tickOf now)
          (world.state.rate lane).seconds) ≤ _ := Buckets.total_record_le
      show (world.state.rate lane).pending - 1 + Buckets.total (Buckets.record _ _ _ _) ≤ _
      omega
    · have hmem : b ∈ (state'.rate lane).seconds := hb
      rw [hrate] at hmem
      exact Buckets.le_of_mem_record hnow (fun b hb => (h.stamps b hb).trans hlatest) hmem
    · show sendsFrom lane tick (world.sends ++ [_]) ≤ Buckets.since tick (state'.rate lane).seconds
      rw [hrate]
      have hstamp : Buckets.stamp (tickOf now) (world.state.rate lane).seconds
          < tick + rateBuckets :=
        (Buckets.stamp_le hnow fun b hb => (h.stamps b hb).trans hlatest).trans_lt htick
      have hcap : Buckets.total (world.state.rate lane).seconds < u64Max := by
        unfold u64Max
        omega
      refine le_trans ?_ (Buckets.since_record (by decide) hcap hstamp)
      unfold sendsFrom
      rw [List.countP_append, List.countP_singleton, huses, hlane, Bool.true_and]
      simp only [decide_eq_true_eq]
      exact Nat.add_le_add_right (h.covers tick (hlatest.trans_lt htick)) _
    · show sendsIn lane start _ (world.sends ++ [_])
        + sendable lane _ (front ++ held.sent now :: back) ≤ _
      have hbefore := h.bounded start
      rw [hguards, sendable_split, hwaits, hlane] at hbefore
      rw [sendable_of_not_pending hgone]
      unfold sendsIn at hbefore ⊢
      rw [List.countP_append, List.countP_singleton, huses, hlane, Bool.true_and]
      simp only [Bool.and_eq_true, decide_eq_true_eq, true_and] at hbefore ⊢
      -- sent within the minute, it could be waited for within the minute
      split
      · next hin =>
        rw [if_pos (htimely.trans_lt hin.2)] at hbefore
        omega
      · omega

theorem Window.move (howned : Owned runtime world)
    (hlimited : Limited lane limit op) (htimely : Timely world op)
    (hmove : Moves runtime world op world') : Window lane limit world' := by
  cases hmove with
  | rests _ now state' hnow haging hsound hown => exact h.aging haging le_after hnow
  | admitted heap key spare limits now ready hready =>
    have haged := h.aging hready.aging (le_max_left world.latest now) (le_max_right _ _)
    refine haged.admitted ?_ (rate_book _ _ _ _ _ _ _) (fun huses => ?_) le_rfl rfl rfl
    · exact (hready.aging.counts lane).2.trans (howned.pending lane)
    · obtain ⟨bound, hbound⟩ := lane_of_uses rfl rfl huses
      obtain rfl := hlimited bound hbound
      exact hready.available lane limit hbound
  | sent front held back now state' hguards hsent hsound =>
    refine h.sent hguards (howned.pending lane) hsent (htimely held ?_)
    rw [hguards, List.getElem?_append_right le_rfl, Nat.sub_self]
    rfl
  | finished front held back outcome now state' hguards hlive hfinish hsound =>
    have hseconds : (state'.rate lane).seconds = (world.state.rate lane).seconds := by
      rw [hfinish.rate]
      split <;> rfl
    have hpending : (state'.rate lane).pending ≤ (world.state.rate lane).pending := by
      rw [hfinish.rate]
      split
      · show (if _ then _ else _) ≤ _
        split
        · exact le_rfl
        · exact Nat.sub_le _ _
      · exact le_rfl
    have hlatest : tickOf world.latest ≤ tickOf (max world.latest now) :=
      tickOf_mono (le_max_left _ _)
    refine ⟨?_, ?_, ?_, fun start => ?_⟩
    · show (state'.rate lane).pending + Buckets.total (state'.rate lane).seconds ≤ _
      rw [hseconds]
      exact (Nat.add_le_add_right hpending _).trans h.quota
    · show ∀ b ∈ (state'.rate lane).seconds, _
      rw [hseconds]
      exact fun b hb => (h.stamps b hb).trans hlatest
    · show ∀ tick, _ → _ ≤ Buckets.since tick (state'.rate lane).seconds
      rw [hseconds]
      exact fun tick htick => h.covers tick (hlatest.trans_lt htick)
    · show sendsIn lane start (start + minute) world.sends
        + sendable lane (start + minute) (front ++ held.finished :: back) ≤ _
      have hbefore := h.bounded start
      rw [hguards, sendable_split] at hbefore
      rw [sendable_of_not_pending (pending_of_done held.finished rfl)]
      omega
  | released front held back hguards hdone =>
    refine ⟨h.quota, h.stamps, h.covers, fun start => ?_⟩
    have hbefore := h.bounded start
    rw [hguards, sendable_of_not_pending (pending_of_done held hdone)] at hbefore
    exact hbefore

end

end BitRouter.Routing
