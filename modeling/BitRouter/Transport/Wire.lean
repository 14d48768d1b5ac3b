import BitRouter.Data.MapTotal
import BitRouter.Data.Run
import Mathlib.Tactic

/-!
# The HTTP/2 header ledger

`gateway/transport/http2/wire.rs` bounds the header metadata one connection
may have in flight. A response reserves the size of its headers before they
are handed to the encoder, and the reservation is released when the frame
that ends the header block has been written, when the stream is reset, when
the send fails, or at the flush that follows a cancellation.

Five callers release, in any order and on any stream, so the byte total is
only right if each release takes out exactly what some reservation put in.
`Pending.Accounted` says so: the total is the sum of the queued
reservations, it is within the budget, no stream keeps an empty queue, and
every cancelled stream has one. Subtraction is *checked* here –
`Headers.release` and `Headers.flushed` answer `none` where the program
would underflow – so that the absence of underflow is a theorem
(`Connection.run_accounted`) and not an artefact of truncated subtraction.
-/

namespace BitRouter.Http2

/-- The header bytes one connection may have reserved. -/
def headerBudget : ℕ := 1024 * 1024

/-- How far a response of interest has come. -/
inductive ResponseState
  | sending
  | ended
  | flushed
  deriving DecidableEq, Repr

/-- The ledger behind the lock of `Headers`. -/
structure Pending where
  /-- The running total of the reservations. -/
  bytes : ℕ := 0
  /-- Per stream, its reservations in the order they were made. -/
  streams : Std.TreeMap ℕ (List ℕ) := ∅
  /-- The streams reset by the application whose queue is still held. -/
  cancelled : Std.TreeSet ℕ := ∅
  responses : Std.TreeMap ℕ ResponseState := ∅

/-- One field of a header map, as the bytes of its name and of its value. -/
abbrev HeaderField := List UInt8 × List UInt8

/-- The ledger and the flag that shuts the connection down. -/
structure Headers where
  pending : Pending := {}
  exhausted : Bool := false

/-- What a header map is accounted for: its names and values, an overhead
per field, and a fixed frame overhead. -/
def headerBytes (headers : List HeaderField) : ℕ :=
  headers.foldl (fun sum f => sum + f.1.length + f.2.length + 32) 512

namespace Headers

def response (h : Headers) (id : ℕ) : Headers :=
  { h with pending := { h.pending with
      responses := h.pending.responses.insert id .sending } }

/-- The drop of a `ResponseFlush`. -/
def dropResponse (h : Headers) (id : ℕ) : Headers :=
  { h with pending := { h.pending with
      responses := h.pending.responses.erase id } }

def ended (h : Headers) (id : ℕ) : Headers :=
  if id ∈ h.pending.responses then
    { h with pending := { h.pending with
        responses := h.pending.responses.insert id .ended } }
  else h

/-- Reserve the headers of a stream, or refuse and mark the connection
exhausted. -/
def reserve (h : Headers) (id : ℕ) (headers : List HeaderField) : Headers × Bool :=
  let bytes := headerBytes headers
  if bytes > headerBudget - h.pending.bytes then
    ({ h with exhausted := true }, false)
  else
    let queue := (h.pending.streams[id]?).getD []
    ({ h with pending := { h.pending with
        bytes := h.pending.bytes + bytes
        streams := h.pending.streams.insert id (queue ++ [bytes]) } }, true)

/-- `usize` subtraction, which aborts on underflow. -/
def checkedSub (a b : ℕ) : Option ℕ := if b ≤ a then some (a - b) else none

/-- What `release` takes out of a queue, and what it leaves. -/
def takeReservations (all last : Bool) (queue : List ℕ) : ℕ × List ℕ :=
  if all then (queue.sum, [])
  else if last then (queue.getLast?.getD 0, queue.dropLast)
  else (queue.head?.getD 0, queue.tail)

/-- Release the whole queue of a stream, its last reservation or its
first. -/
def release (h : Headers) (id : ℕ) (all last : Bool) : Option Headers :=
  match h.pending.streams[id]? with
  | none => some h
  | some queue => do
    let (bytes, rest) := takeReservations all last queue
    let left ← checkedSub h.pending.bytes bytes
    if rest.isEmpty then
      some { h with pending := { h.pending with
        bytes := left
        streams := h.pending.streams.erase id
        cancelled := h.pending.cancelled.erase id } }
    else
      some { h with pending := { h.pending with
        bytes := left
        streams := h.pending.streams.insert id rest } }

/-- A send that failed gives back the reservation made last. -/
def unsent (h : Headers) (id : ℕ) : Option Headers := h.release id false true

/-- A reset by the application: the queue stays until the next flush. -/
def cancel (h : Headers) (id : ℕ) : Headers :=
  let cancelled :=
    if id ∈ h.pending.streams then h.pending.cancelled.insert id
    else h.pending.cancelled
  let responses :=
    match h.pending.responses[id]? with
    | some .sending | some .ended => h.pending.responses.insert id .ended
    | _ => h.pending.responses
  { h with pending := { h.pending with cancelled := cancelled, responses := responses } }

/-- The removal of one cancelled stream from the ledger. -/
def discard (p : Pending) (id : ℕ) : Option Pending :=
  match p.streams[id]? with
  | none => some p
  | some queue => do
    let left ← checkedSub p.bytes queue.sum
    some { p with bytes := left, streams := p.streams.erase id }

/-- A completed flush: every ended response is flushed, and the queues of
the cancelled streams are discarded. -/
def flushed (h : Headers) : Option Headers :=
  let released := h.pending.responses.toList.any (fun e => e.2 = .ended)
  let responses := h.pending.responses.map
    (fun _ state => if state = .ended then .flushed else state)
  if !released && h.pending.cancelled.isEmpty then
    some { h with pending := { h.pending with responses := responses } }
  else do
    let start : Pending := { h.pending with responses := responses, cancelled := ∅ }
    let left ← h.pending.cancelled.toList.foldlM discard start
    some { h with pending := left }

end Headers

/-! ## Frames on the wire -/

/-- The part of a frame header the ledger reads. -/
structure Frame where
  kind : UInt8
  flags : UInt8
  stream : ℕ
  deriving DecidableEq, Repr

/-- The position in the byte stream, with nothing said about it: the frame
header read so far, and the payload bytes left. -/
structure RawFrames where
  header : Fin 9 → UInt8 := fun _ => 0
  used : ℕ := 0
  remaining : ℕ := 0
  deriving DecidableEq

namespace RawFrames

/-- The 24-bit payload length of the buffered header. -/
def length (f : RawFrames) : ℕ :=
  (f.header 0).toNat <<< 16 ||| (f.header 1).toNat <<< 8 ||| (f.header 2).toNat

/-- The stream of the buffered header, its reserved bit masked. -/
def stream (f : RawFrames) : ℕ :=
  ((f.header 5).toNat <<< 24 ||| (f.header 6).toNat <<< 16
    ||| (f.header 7).toNat <<< 8 ||| (f.header 8).toNat) &&& 0x7fffffff

/-- Advance over a prefix of `bytes`: the rest of the frame header, or
payload. -/
def advance (f : RawFrames) (bytes : List UInt8) : RawFrames × ℕ :=
  if f.used < 9 then
    let count := min bytes.length (9 - f.used)
    let filled : RawFrames := { f with
      header := fun i =>
        if f.used ≤ i.val ∧ i.val < f.used + count then bytes.getD (i.val - f.used) 0
        else f.header i
      used := f.used + count }
    (if filled.used = 9 then { filled with remaining := filled.length } else filled, count)
  else
    let count := min bytes.length f.remaining
    ({ f with remaining := f.remaining - count }, count)

theorem advance_used_le (f : RawFrames) (bytes : List UInt8) (h : f.used ≤ 9) :
    (f.advance bytes).1.used ≤ 9 := by
  unfold advance
  by_cases hu : f.used < 9
  · rw [if_pos hu]
    dsimp only
    split <;> dsimp only <;> omega
  · rw [if_neg hu]
    exact h

end RawFrames

/-- **The position between two reads**: inside a frame header, or inside a
payload of which some bytes are left. A frame whose last byte has been read
is never held. -/
structure Frames extends RawFrames where
  waiting : used < 9 ∨ (used = 9 ∧ 0 < remaining) := by decide

instance : DecidableEq Frames := fun a b =>
  decidable_of_iff (a.toRawFrames = b.toRawFrames)
    ⟨fun h => by cases a; cases b; simpa using h, fun h => by rw [h]⟩

namespace Frames

/-- Complete the frame whose last byte has been read, or go on waiting. -/
def settle (f : RawFrames) (hle : f.used ≤ 9) : Frames × Option Frame :=
  if h : f.used = 9 ∧ f.remaining = 0 then
    ({ toRawFrames := { f with used := 0 }, waiting := Or.inl (by simp) },
      some { kind := f.header 3, flags := f.header 4, stream := f.stream })
  else ({ toRawFrames := f, waiting := by omega }, none)

def consume (f : Frames) (bytes : List UInt8) : Frames × ℕ × Option Frame :=
  let s := settle (f.toRawFrames.advance bytes).1
    (f.toRawFrames.advance_used_le bytes (by have := f.waiting; omega))
  (s.1, (f.toRawFrames.advance bytes).2, s.2)

/-- **Every round reads a byte.** -/
theorem consume_count_pos (f : Frames) (b : UInt8) (bs : List UInt8) :
    0 < (f.consume (b :: bs)).2.1 := by
  have hw := f.waiting
  show 0 < (f.toRawFrames.advance (b :: bs)).2
  rw [RawFrames.advance, List.length_cons]
  split <;> dsimp only <;> omega

end Frames

/-- One end of a connection, as far as the ledger goes. -/
structure Wire where
  headers : Headers := {}
  written : Frames := {}

namespace Wire

/-- What a written frame does to the ledger. -/
def onSent (h : Headers) (frame : Frame) : Option Headers :=
  let h :=
    if ((frame.kind = 0 ∨ frame.kind = 1) ∧ frame.flags &&& 1 ≠ 0) ∨ frame.kind = 3 then
      h.ended frame.stream
    else h
  if (frame.kind = 1 ∨ frame.kind = 9) ∧ frame.flags &&& 4 ≠ 0 then
    h.release frame.stream false false
  else if frame.kind = 3 then h.release frame.stream true false
  else some h

/-- The bytes the transport has accepted. -/
def sent (w : Wire) (bytes : List UInt8) : Option Wire :=
  match bytes with
  | [] => some w
  | b :: bs =>
    let r := w.written.consume (b :: bs)
    match r.2.2 with
    | none => sent { w with written := r.1 } ((b :: bs).drop r.2.1)
    | some frame =>
      match onSent w.headers frame with
      | none => none
      | some h => sent { headers := h, written := r.1 } ((b :: bs).drop r.2.1)
termination_by bytes.length
decreasing_by
  all_goals
    have hpos := w.written.consume_count_pos b bs
    simp only [List.length_drop, List.length_cons]
    omega

end Wire

end BitRouter.Http2
