import BitRouter.Transport.Wire

/-!
# The header ledger is exact

The invariant of `BitRouter.Transport.Wire` and its preservation, one lemma
per caller. The accounting is done over the streams as a map from stream to
queue: `mapTotal List.sum` is the sum of everything queued, and a caller
exchanges the weight of one key, so each case is linear arithmetic once the
queue it touched is known.

`Wire.run_accounted` is the statement about a connection: whatever its
callers do, in whatever order, the ledger never underflows and stays exact.
-/

namespace BitRouter.Http2

/-- **The ledger is exact**: the total is the sum of the queued
reservations and within the budget, no stream keeps an empty queue, and
every cancelled stream still has one. -/
structure Pending.Accounted (p : Pending) : Prop where
  bytes_eq : p.bytes = mapTotal List.sum p.streams
  bytes_le : p.bytes ≤ headerBudget
  queue_ne_nil : ∀ (id : ℕ) (queue : List ℕ), p.streams[id]? = some queue → queue ≠ []
  cancelled_mem : ∀ id : ℕ, id ∈ p.cancelled → id ∈ p.streams

theorem Pending.accounted_empty : ({} : Pending).Accounted where
  bytes_eq := rfl
  bytes_le := Nat.zero_le _
  queue_ne_nil id queue h := by simp at h
  cancelled_mem id h := by simp at h

variable {p : Pending}

theorem Pending.Accounted.setResponses (h : p.Accounted) (r : Std.TreeMap ℕ ResponseState) :
    ({ p with responses := r } : Pending).Accounted :=
  ⟨h.bytes_eq, h.bytes_le, h.queue_ne_nil, h.cancelled_mem⟩

variable {id : ℕ}

theorem weightAt_of_getElem? {queue : List ℕ} (h : p.streams[id]? = some queue) :
    weightAt List.sum p.streams id = queue.sum := by
  rw [weightAt, h]
  rfl

/-- **A queued reservation is in the total**, so taking it out cannot
underflow. -/
theorem Pending.Accounted.queue_sum_le (hp : p.Accounted) {queue : List ℕ}
    (h : p.streams[id]? = some queue) : queue.sum ≤ p.bytes := by
  rw [hp.bytes_eq, ← weightAt_of_getElem? h]
  exact weightAt_le_mapTotal _ _ _

variable {h : Headers}

namespace Headers

theorem checkedSub_of_le {a b : ℕ} (h : b ≤ a) : checkedSub a b = some (a - b) := if_pos h

theorem takeReservations_sum (all last : Bool) (queue : List ℕ) :
    (takeReservations all last queue).1 + (takeReservations all last queue).2.sum
      = queue.sum := by
  unfold takeReservations
  cases all with
  | true => rfl
  | false =>
    cases last with
    | false => cases queue <;> rfl
    | true =>
      rcases List.eq_nil_or_concat queue with rfl | ⟨front, x, rfl⟩
      · rfl
      · simp [Nat.add_comm]

/-! ## One lemma per caller -/

/-- Putting a queue back with the total moved accordingly. -/
theorem accounted_insert (hp : p.Accounted) {bytes : ℕ} {rest : List ℕ} (hrest : rest ≠ [])
    (hbytes : bytes + weightAt List.sum p.streams id = p.bytes + rest.sum)
    (hle : bytes ≤ headerBudget) :
    ({ p with bytes := bytes, streams := p.streams.insert id rest } : Pending).Accounted where
  bytes_eq := by
    have hins := mapTotal_insert List.sum p.streams id rest
    have heq := hp.bytes_eq
    dsimp only
    omega
  bytes_le := hle
  queue_ne_nil i queue h := by
    rw [Std.TreeMap.getElem?_insert] at h
    split at h
    · rw [← Option.some.inj h]
      exact hrest
    · exact hp.queue_ne_nil i queue h
  cancelled_mem i h := by
    rw [Std.TreeMap.mem_insert]
    exact Or.inr (hp.cancelled_mem i h)

/-- Taking a whole queue out, the stream with it. -/
theorem accounted_erase (hp : p.Accounted) {bytes : ℕ} {cancelled : Std.TreeSet ℕ}
    (hbytes : bytes + weightAt List.sum p.streams id = p.bytes)
    (hsub : ∀ i, i ∈ cancelled → i ∈ p.cancelled ∧ i ≠ id) :
    ({ p with bytes := bytes, streams := p.streams.erase id,
              cancelled := cancelled } : Pending).Accounted where
  bytes_eq := by
    have her := mapTotal_erase List.sum p.streams id
    have heq := hp.bytes_eq
    dsimp only
    omega
  bytes_le := by
    have hle := hp.bytes_le
    dsimp only
    omega
  queue_ne_nil i queue h := by
    rw [Std.TreeMap.getElem?_erase] at h
    split at h
    · exact absurd h (by simp)
    · exact hp.queue_ne_nil i queue h
  cancelled_mem i h := by
    obtain ⟨hi, hne⟩ := hsub i h
    rw [Std.TreeMap.mem_erase]
    exact ⟨by simpa [Nat.compare_eq_eq] using hne.symm, hp.cancelled_mem i hi⟩

/-- **Releasing finds what it subtracts**, from the front, from the back or
as a whole. -/
theorem release_accounted (hp : h.pending.Accounted) (id : ℕ) (all last : Bool) :
    ∃ h', h.release id all last = some h' ∧ h'.pending.Accounted := by
  unfold release
  cases hq : h.pending.streams[id]? with
  | none => exact ⟨h, rfl, hp⟩
  | some queue =>
    have hsum := takeReservations_sum all last queue
    have hle := hp.queue_sum_le hq
    have hweight := weightAt_of_getElem? hq
    have hsub := checkedSub_of_le (a := h.pending.bytes)
      (b := (takeReservations all last queue).1) (by omega)
    dsimp only
    rw [hsub]
    cases hrest : (takeReservations all last queue).2 with
    | nil =>
      rw [hrest, List.sum_nil] at hsum
      refine ⟨_, rfl, accounted_erase hp (by omega) (fun i hi => ?_)⟩
      rw [Std.TreeSet.mem_erase] at hi
      exact ⟨hi.2, fun h => hi.1 (by simp [h])⟩
    | cons x rest =>
      rw [hrest] at hsum
      have hbound := hp.bytes_le
      exact ⟨_, rfl, accounted_insert hp (List.cons_ne_nil x rest) (by omega) (by omega)⟩

/-- **A reservation is refused exactly when it does not fit**, and a
refusal leaves the ledger as it was. -/
theorem reserve_refused_iff (hp : h.pending.Accounted) (id : ℕ) (headers : List HeaderField) :
    (h.reserve id headers).2 = false
      ↔ headerBudget < h.pending.bytes + headerBytes headers := by
  have hle := hp.bytes_le
  unfold reserve
  dsimp only
  split
  · simp only [true_iff]
    omega
  · simp only [Bool.true_eq_false, false_iff]
    omega

theorem reserve_pending_of_refused (h : Headers) (id : ℕ) (headers : List HeaderField)
    (hr : (h.reserve id headers).2 = false) :
    (h.reserve id headers).1.pending = h.pending := by
  unfold reserve at hr ⊢
  dsimp only at hr ⊢
  split at hr
  · rw [if_pos ‹_›]
  · exact absurd hr (by simp)

/-- **A reservation that is not refused is queued** last in its stream; the
other streams keep their queues. -/
theorem reserve_queued (h : Headers) (id : ℕ) (headers : List HeaderField)
    (hr : (h.reserve id headers).2 = true) (i : ℕ) :
    (h.reserve id headers).1.pending.streams[i]? =
      if i = id then some ((h.pending.streams[id]?).getD [] ++ [headerBytes headers])
      else h.pending.streams[i]? := by
  unfold reserve at hr ⊢
  dsimp only at hr ⊢
  split at hr
  · exact absurd hr Bool.false_ne_true
  · rw [if_neg ‹_›, Std.TreeMap.getElem?_insert]
    by_cases hi : i = id
    · rw [if_pos hi, if_pos (Nat.compare_eq_eq.mpr hi.symm)]
    · rw [if_neg hi, if_neg (fun h => hi (Nat.compare_eq_eq.mp h).symm)]

theorem reserve_accounted (hp : h.pending.Accounted) (id : ℕ) (headers : List HeaderField) :
    (h.reserve id headers).1.pending.Accounted := by
  have hle := hp.bytes_le
  unfold reserve
  dsimp only
  split
  · exact hp
  · refine accounted_insert hp (by simp) ?_ (by omega)
    have hw : weightAt List.sum h.pending.streams id
        = ((h.pending.streams[id]?).getD []).sum := by
      rw [weightAt]
      cases h.pending.streams[id]? <;> rfl
    rw [hw, List.sum_append, List.sum_singleton]
    omega

theorem cancel_accounted (hp : h.pending.Accounted) (id : ℕ) :
    (h.cancel id).pending.Accounted := by
  refine ⟨hp.bytes_eq, hp.bytes_le, hp.queue_ne_nil, fun i hi => ?_⟩
  unfold cancel at hi ⊢
  split at hi
  · rename_i hmem
    rw [Std.TreeSet.mem_insert] at hi
    rcases hi with heq | hi
    · rwa [← Nat.compare_eq_eq.mp heq]
    · exact hp.cancelled_mem i hi
  · exact hp.cancelled_mem i hi

theorem discard_accounted (hp : p.Accounted) (hc : p.cancelled = ∅) (id : ℕ) :
    ∃ p', discard p id = some p' ∧ p'.Accounted ∧ p'.cancelled = ∅ := by
  unfold discard
  cases hq : p.streams[id]? with
  | none => exact ⟨p, rfl, hp, hc⟩
  | some queue =>
    have hle := hp.queue_sum_le hq
    have hweight := weightAt_of_getElem? hq
    dsimp only
    rw [checkedSub_of_le hle]
    refine ⟨_, rfl, accounted_erase hp (by omega) (fun i hi => ?_), hc⟩
    rw [hc] at hi
    exact absurd hi (by simp)

/-- **A flush discards whole queues only**, so it underflows no more than a
release does. -/
theorem flushed_accounted (hp : h.pending.Accounted) :
    ∃ h', h.flushed = some h' ∧ h'.pending.Accounted := by
  unfold flushed
  dsimp only
  split
  · exact ⟨_, rfl, hp.setResponses _⟩
  · obtain ⟨p', hfold, hp', -⟩ := foldlM_total
      (P := fun p : Pending => p.Accounted ∧ p.cancelled = ∅)
      (fun p id hP => discard_accounted hP.1 hP.2 id)
      h.pending.cancelled.toList
      (s := { h.pending with
        responses := h.pending.responses.map
          (fun _ state => if state = .ended then .flushed else state)
        cancelled := ∅ })
      ⟨⟨hp.bytes_eq, hp.bytes_le, hp.queue_ne_nil, fun i hi => absurd hi (by simp)⟩, rfl⟩
    rw [hfold]
    exact ⟨_, rfl, hp'⟩

theorem ended_accounted (hp : h.pending.Accounted) (id : ℕ) :
    (h.ended id).pending.Accounted := by
  unfold ended
  split
  · exact hp.setResponses _
  · exact hp

end Headers

namespace Wire

theorem onSent_accounted (hp : h.pending.Accounted) (frame : Frame) :
    ∃ h', onSent h frame = some h' ∧ h'.pending.Accounted := by
  unfold onSent
  have hended : (if ((frame.kind = 0 ∨ frame.kind = 1) ∧ frame.flags &&& 1 ≠ 0)
      ∨ frame.kind = 3 then h.ended frame.stream else h).pending.Accounted := by
    split
    · exact Headers.ended_accounted hp _
    · exact hp
  dsimp only
  split
  · exact Headers.release_accounted hended _ _ _
  · split
    · exact Headers.release_accounted hended _ _ _
    · exact ⟨_, rfl, hended⟩

/-- **Whatever bytes are written**, in whatever pieces, the releases they
cause keep the ledger exact. -/
theorem sent_accounted (w : Wire) (bytes : List UInt8) (hp : w.headers.pending.Accounted) :
    ∃ w', w.sent bytes = some w' ∧ w'.headers.pending.Accounted := by
  induction w, bytes using Wire.sent.induct with
  | case1 w => exact ⟨w, by rw [sent], hp⟩
  | case2 w b bs r hframe ih =>
    rw [sent]
    simp only [r] at hframe ih
    simpa only [hframe] using ih hp
  | case3 w b bs r frame hframe hsent =>
    obtain ⟨h', hh, -⟩ := onSent_accounted hp frame
    exact absurd hsent (by rw [hh]; simp)
  | case4 w b bs r frame hframe h hsent ih =>
    obtain ⟨h', hh, hh'⟩ := onSent_accounted hp frame
    obtain rfl : h' = h := Option.some.inj (hh.symm.trans hsent)
    rw [sent]
    simp only [r] at hframe ih
    simpa only [hframe, hsent] using ih hh'

/-! ## A connection -/

/-- **What may happen to a connection's ledger**: the calls of its streams,
the bytes the transport accepts, and its flushes. -/
inductive Op
  | reserve (id : ℕ) (headers : List HeaderField)
  | unsent (id : ℕ)
  | cancel (id : ℕ)
  | flushed
  | sent (bytes : List UInt8)
  | response (id : ℕ)
  | dropResponse (id : ℕ)

def step (w : Wire) : Op → Option Wire
  | .reserve id headers => some { w with headers := (w.headers.reserve id headers).1 }
  | .unsent id => (w.headers.unsent id).map (fun h => { w with headers := h })
  | .cancel id => some { w with headers := w.headers.cancel id }
  | .flushed => w.headers.flushed.map (fun h => { w with headers := h })
  | .sent bytes => w.sent bytes
  | .response id => some { w with headers := w.headers.response id }
  | .dropResponse id => some { w with headers := w.headers.dropResponse id }

/-- **One operation keeps the ledger exact** and does not underflow. -/
theorem step_accounted (w : Wire) (op : Op) (hp : w.headers.pending.Accounted) :
    ∃ w', w.step op = some w' ∧ w'.headers.pending.Accounted := by
  cases op with
  | reserve id headers => exact ⟨_, rfl, Headers.reserve_accounted hp id headers⟩
  | unsent id =>
    obtain ⟨h', hh, hp'⟩ := Headers.release_accounted hp id false true
    exact ⟨{ w with headers := h' }, by simp [step, Headers.unsent, hh], hp'⟩
  | cancel id => exact ⟨_, rfl, Headers.cancel_accounted hp id⟩
  | flushed =>
    obtain ⟨h', hh, hp'⟩ := Headers.flushed_accounted hp
    exact ⟨{ w with headers := h' }, by simp [step, hh], hp'⟩
  | sent bytes => exact sent_accounted w bytes hp
  | response id => exact ⟨_, rfl, hp.setResponses _⟩
  | dropResponse id => exact ⟨_, rfl, hp.setResponses _⟩

/-- **The header ledger of a connection is exact, whatever happens to
it.** No sequence of operations underflows; after each of them the total is
the sum of the queued reservations and within the budget, no stream has an
empty queue and every cancelled stream has one; and a reservation is
refused exactly when it does not fit what is left, leaving the ledger as it
was, and is queued otherwise. -/
theorem run_accounted (ops : List Op) :
    ∃ w : Wire, ops.foldlM step {} = some w ∧ w.headers.pending.Accounted
      ∧ ∀ id headers,
        ((w.headers.reserve id headers).2 = false
            ↔ headerBudget < w.headers.pending.bytes + headerBytes headers)
          ∧ ((w.headers.reserve id headers).2 = false →
            (w.headers.reserve id headers).1.pending = w.headers.pending)
          ∧ ((w.headers.reserve id headers).2 = true → ∀ i,
            (w.headers.reserve id headers).1.pending.streams[i]? =
              if i = id then
                some ((w.headers.pending.streams[id]?).getD [] ++ [headerBytes headers])
              else w.headers.pending.streams[i]?) := by
  obtain ⟨w, hrun, hw⟩ := foldlM_total (fun w op => step_accounted w op) ops
    (s := ({} : Wire)) Pending.accounted_empty
  exact ⟨w, hrun, hw, fun id headers => ⟨Headers.reserve_refused_iff hw id headers,
    Headers.reserve_pending_of_refused w.headers id headers,
    Headers.reserve_queued w.headers id headers⟩⟩

end Wire

end BitRouter.Http2
