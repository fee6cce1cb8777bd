import CppMeet.Lib.Run
import CppMeet.Lib.SortedMap
import CppMeet.Rtp.Packet

/-!
# The adaptive jitter buffer

`JitterBuffer` files packets under their 16-bit numbers as `RtpJitterBuffer` does, and `pop` hands
out the packet with the numerically smallest one, as soon as the last arrival is long enough ago or
more than 10 packets wait. How long is long enough follows a smoothed estimate of the jitter in
floating-point milliseconds; `Timing` stands for the clock and this arithmetic.

The class knows nothing about a packet but its number, so the packets may be of any type here as
well.
-/

set_option autoImplicit false

namespace CppMeet.Weak.AdaptiveBuffer

open CppMeet.Lib.Run CppMeet.Lib.SortedMap CppMeet.Rtp.Packet

universe u v w

/-- The steady clock, with readings in `T`, and the arithmetic on `double` values. -/
structure Timing (T : Type v) (D : Type w) where
  /-- The default value of a `time_point`. -/
  epoch : T
  zero : D
  /-- `duration<double, std::milli>(now - last).count()`. -/
  elapsed : (now last : T) → D
  /-- `smoothed + (|delta - 20| - smoothed) / 16`. -/
  smooth : (smoothed delta : D) → D
  /-- `elapsed >= (double)(target + (int)(smoothed * 2))`. -/
  longEnough : (target : Int32) → (smoothed elapsed : D) → Bool

/-- The packets by sequence number, and the delay that is aimed at. -/
structure JitterBuffer (P : Type u) (T : Type v) (D : Type w) where
  targetDelayMs : Int32
  buf : Std.TreeMap UInt16 P := ∅
  smoothedJitterMs : D
  lastArrival : T
  started : Bool := false

namespace JitterBuffer

variable {P : Type u} {T : Type v} {D : Type w} (timing : Timing T D)

/-- The constructor. -/
def ofTarget (targetDelayMs : Int32 := 100) : JitterBuffer P T D where
  targetDelayMs := targetDelayMs
  smoothedJitterMs := timing.zero
  lastArrival := timing.epoch

/-- `now` is the time read by the call. -/
def push [Sequenced P] (m : JitterBuffer P T D) (now : T) (pkt : P) : JitterBuffer P T D where
  targetDelayMs := m.targetDelayMs
  buf := m.buf.insertIfNew (seqOf pkt) pkt
  smoothedJitterMs :=
    -- the first packet has no interval
    if m.started then timing.smooth m.smoothedJitterMs (timing.elapsed now m.lastArrival)
    else m.smoothedJitterMs
  lastArrival := now
  started := true

/-- The packet with the least number, once the delay is over or too many packets wait. -/
def pop (m : JitterBuffer P T D) (now : T) : Option P × JitterBuffer P T D :=
  if m.buf.isEmpty then (none, m)
  else if !m.started then (none, m)
  -- more than ten packets go out whatever the delay is
  else if timing.longEnough m.targetDelayMs m.smoothedJitterMs (timing.elapsed now m.lastArrival) ||
      m.buf.size > 10 then
    match m.buf.toList with
    | [] => (none, m)
    | (seq, pkt) :: _ => (some pkt, { m with buf := m.buf.erase seq })
  else (none, m)

/-- `pop` leaves the buffer alone, or hands out a packet in the slot with the smallest number. -/
theorem pop_cases (m : JitterBuffer P T D) (now : T) :
    m.pop timing now = (none, m) ∨
      ∃ seq pkt, m.buf[seq]? = some pkt ∧ (∀ k q, m.buf[k]? = some q → k ≠ seq → seq < k) ∧
        m.pop timing now = (some pkt, { m with buf := m.buf.erase seq }) := by
  unfold pop
  split_ifs with hempty hstarted hdue
  · exact Or.inl rfl
  · exact Or.inl rfl
  · cases hlist : m.buf.toList with
    | nil => exact Or.inl rfl
    | cons entry rest =>
        obtain ⟨seq, pkt⟩ := entry
        obtain ⟨hslot, hmin⟩ := first_toList hlist
        refine Or.inr ⟨seq, pkt, hslot, fun k q hq hne => ?_, rfl⟩
        have hlt := hmin k q hq hne
        rwa [Std.compare_eq_lt] at hlt
  · exact Or.inl rfl

/-- A `pop` that is late enough hands out a packet if there is one. -/
theorem pop_size_lt {m : JitterBuffer P T D} {now : T} (hstarted : m.started = true)
    (hdue : timing.longEnough m.targetDelayMs m.smoothedJitterMs
      (timing.elapsed now m.lastArrival) = true)
    {k : UInt16} {q : P} (hslot : m.buf[k]? = some q) :
    (m.pop timing now).2.buf.size < m.buf.size := by
  have hne := isEmpty_eq_false hslot
  unfold pop
  rw [hne, hstarted, hdue]
  cases hlist : m.buf.toList with
  | nil =>
      rw [← Std.TreeMap.isEmpty_toList, hlist] at hne
      cases hne
  | cons entry rest => exact size_erase_lt (first_toList hlist).1

/-- A push fills the slot of its number, if that is empty. -/
theorem slot_push_iff [Sequenced P] {m : JitterBuffer P T D} {now : T} {pkt q : P} {k : UInt16} :
    (m.push timing now pkt).buf[k]? = some q ↔
      k = seqOf pkt ∧ m.buf[seqOf pkt]? = none ∧ q = pkt ∨ m.buf[k]? = some q :=
  getElem?_insertIfNew_eq_some_iff

end JitterBuffer

/-- A call, with the reading of the clock that it uses. -/
inductive Call (P : Type u) (T : Type v) where
  | push (now : T) (pkt : P)
  | pop (now : T)

/-- A buffer and the packets it has handed out. -/
structure Session (P : Type u) (T : Type v) (D : Type w) where
  buffer : JitterBuffer P T D
  released : List P := []

/-- A call, and what it released behind what was released before. -/
def Session.step {P : Type u} {T : Type v} {D : Type w} [Sequenced P] (timing : Timing T D)
    (s : Session P T D) : Call P T → Session P T D
  | .push now pkt => { s with buffer := s.buffer.push timing now pkt }
  | .pop now =>
      let (out, buffer) := s.buffer.pop timing now
      { buffer := buffer, released := s.released ++ out.toList }

/-- A new buffer with the given target delay. -/
def Session.init {P : Type u} {T : Type v} {D : Type w} (timing : Timing T D) (target : Int32) :
    Session P T D where
  buffer := .ofTarget timing target

/-- A `pop` changes nothing, or moves the packet in the smallest slot to those handed out. -/
theorem Session.step_pop_cases {P : Type u} {T : Type v} {D : Type w} [Sequenced P]
    (timing : Timing T D) (s : Session P T D) (now : T) :
    s.step timing (.pop now) = s ∨
      ∃ (seq : UInt16) (pkt : P), s.buffer.buf[seq]? = some pkt ∧
        (∀ (k : UInt16) q, s.buffer.buf[k]? = some q → k ≠ seq → seq < k) ∧
        s.step timing (.pop now) =
          { buffer := { s.buffer with buf := s.buffer.buf.erase seq }
            released := s.released ++ [pkt] } := by
  rcases s.buffer.pop_cases timing now with hnone | ⟨seq, pkt, hslot, hmin, hsome⟩
  · left
    rw [Session.step, hnone]
    simp
  · right
    refine ⟨seq, pkt, hslot, hmin, ?_⟩
    rw [Session.step, hsome]
    rfl

end CppMeet.Weak.AdaptiveBuffer
