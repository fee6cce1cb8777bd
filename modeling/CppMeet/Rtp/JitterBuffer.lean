import CppMeet.Lib.Run
import CppMeet.Lib.Serial
import CppMeet.Lib.SortedMap
import CppMeet.Rtp.Packet

/-!
# The RTP jitter buffer

`RtpJitterBuffer` files packets under their 16-bit sequence numbers and hands them out in sequence,
from the number of the first arrival on. An arrival whose number is taken is dropped. The buffer
does nothing with a packet but read its number, so it is defined for packets of any type; the
program runs it on `RtpPacket`. A proof may run it on packets that carry an unbounded number as well
(`Numbered`), which makes no difference to the packets handed out (`popped_map`).
-/

set_option autoImplicit false

namespace CppMeet.Rtp.JitterBuffer

open CppMeet.Lib.Run CppMeet.Lib.Serial CppMeet.Lib.SortedMap CppMeet.Rtp.Packet

universe u

/-- The packets by sequence number, and the number that is due. -/
structure RtpJitterBuffer (P : Type u) where
  buf : Std.TreeMap UInt16 P := ∅
  nextSeq : UInt16 := 0
  started : Bool := false

namespace RtpJitterBuffer

variable {P : Type u}

/-- The first packet ever pushed decides where the order starts. -/
def push [Sequenced P] (m : RtpJitterBuffer P) (pkt : P) : RtpJitterBuffer P where
  -- `emplace` keeps the packet that is already there
  buf := m.buf.insertIfNew (seqOf pkt) pkt
  nextSeq := if m.started then m.nextSeq else seqOf pkt
  started := true

/-- The packet that is due, if it is there. -/
def popNext (m : RtpJitterBuffer P) : Option P × RtpJitterBuffer P :=
  if m.buf.isEmpty then (none, m)
  else
    match m.buf[m.nextSeq]? with
    | none => (none, m)
    | some pkt => (some pkt, { m with buf := m.buf.erase m.nextSeq, nextSeq := m.nextSeq + 1 })

/-- Nothing is popped while the packet that is due is missing. -/
theorem popNext_none {m : RtpJitterBuffer P} (h : m.buf[m.nextSeq]? = none) :
    m.popNext = (none, m) := by
  rw [popNext, h]
  split <;> rfl

/-- The packet that is due is popped, and the next number is due. -/
theorem popNext_some {m : RtpJitterBuffer P} {pkt : P} (h : m.buf[m.nextSeq]? = some pkt) :
    m.popNext =
      (some pkt, { m with buf := m.buf.erase m.nextSeq, nextSeq := m.nextSeq + 1 }) := by
  rw [popNext, isEmpty_eq_false h, h]
  rfl

/-- A pop that returns a packet makes the buffer smaller. -/
theorem popNext_size {m m' : RtpJitterBuffer P} {pkt : P} (h : m.popNext = (some pkt, m')) :
    m'.buf.size < m.buf.size := by
  cases hslot : m.buf[m.nextSeq]? with
  | none =>
      rw [popNext_none hslot] at h
      cases h
  | some pkt' =>
      rw [popNext_some hslot] at h
      cases h
      exact size_erase_lt hslot

/-- Calling `pop_next` until it returns nothing: the packets returned and the buffer left. -/
def popAll (m : RtpJitterBuffer P) : List P × RtpJitterBuffer P :=
  match h : m.popNext with
  | (none, m') => ([], m')
  | (some pkt, m') =>
      have : m'.buf.size < m.buf.size := popNext_size h
      (pkt :: m'.popAll.1, m'.popAll.2)
termination_by m.buf.size

theorem popAll_none {m m' : RtpJitterBuffer P} (h : m.popNext = (none, m')) :
    m.popAll = ([], m') := by
  rw [popAll]
  split
  next hpop => rw [h] at hpop; cases hpop; rfl
  next hpop => rw [h] at hpop; cases hpop

theorem popAll_some {m m' : RtpJitterBuffer P} {pkt : P} (h : m.popNext = (some pkt, m')) :
    m.popAll = (pkt :: m'.popAll.1, m'.popAll.2) := by
  rw [popAll]
  split
  next hpop => rw [h] at hpop; cases hpop
  next hpop => rw [h] at hpop; cases hpop; rfl

/-- A push fills the slot of its number, if that is empty. -/
theorem getElem?_push [Sequenced P] (m : RtpJitterBuffer P) (pkt : P) (k : UInt16) :
    (m.push pkt).buf[k]? =
      if k = seqOf pkt ∧ m.buf[seqOf pkt]? = none then some pkt else m.buf[k]? :=
  getElem?_insertIfNew_ite m.buf (seqOf pkt) k pkt

theorem slot_push_iff [Sequenced P] {m : RtpJitterBuffer P} {pkt q : P} {k : UInt16} :
    (m.push pkt).buf[k]? = some q ↔
      k = seqOf pkt ∧ m.buf[seqOf pkt]? = none ∧ q = pkt ∨ m.buf[k]? = some q :=
  getElem?_insertIfNew_eq_some_iff

end RtpJitterBuffer

/-- The calls of the two functions. -/
inductive Call (P : Type u) where
  | push (pkt : P)
  | popNext

/-- A buffer and the packets it has handed out. -/
structure Session (P : Type u) where
  buffer : RtpJitterBuffer P := {}
  popped : List P := []

namespace Session

variable {P : Type u} [Sequenced P]

/-- A call, and what it popped behind what was popped before. -/
def step (s : Session P) : Call P → Session P
  | .push pkt => { s with buffer := s.buffer.push pkt }
  | .popNext =>
      let (out, buffer) := s.buffer.popNext
      { buffer := buffer, popped := s.popped ++ out.toList }

/-- A call of `popNext` that returns nothing changes nothing. -/
theorem step_popNext_none {s : Session P} (h : s.buffer.buf[s.buffer.nextSeq]? = none) :
    s.step .popNext = s := by
  rw [step, RtpJitterBuffer.popNext_none h]
  simp

/-- A call of `popNext` that returns the packet that is due. -/
theorem step_popNext_some {s : Session P} {pkt : P}
    (h : s.buffer.buf[s.buffer.nextSeq]? = some pkt) :
    s.step .popNext =
      { buffer := { s.buffer with
          buf := s.buffer.buf.erase s.buffer.nextSeq, nextSeq := s.buffer.nextSeq + 1 }
        popped := s.popped ++ [pkt] } := by
  rw [step, RtpJitterBuffer.popNext_some h]
  rfl

end Session

/-! ## Other packets with the same numbers -/

section Mirrors

variable {P Q : Type u} [Sequenced P] [Sequenced Q] (f : P → Q)

/-- The call on other packets. -/
def Call.map : Call P → Call Q
  | .push pkt => .push (f pkt)
  | .popNext => .popNext

/-- The second session has done the same with the images of the packets. -/
structure Mirrors (s : Session P) (s' : Session Q) : Prop where
  buf : ∀ k : UInt16, s'.buffer.buf[k]? = s.buffer.buf[k]?.map f
  nextSeq : s'.buffer.nextSeq = s.buffer.nextSeq
  started : s'.buffer.started = s.buffer.started
  popped : s'.popped = s.popped.map f

variable {f}

/-- Pushing corresponding packets keeps the two buffers alike. -/
theorem Mirrors.push (hf : ∀ pkt, seqOf (f pkt) = seqOf pkt) {s : Session P} {s' : Session Q}
    (h : Mirrors f s s') (pkt : P) :
    Mirrors f (s.step (.push pkt)) (s'.step (.push (f pkt))) where
  buf k := by
    rw [Session.step, Session.step, RtpJitterBuffer.getElem?_push, RtpJitterBuffer.getElem?_push,
      hf, h.buf, h.buf]
    simp only [Option.map_eq_none_iff]
    split_ifs with hk
    · rfl
    · rfl
  nextSeq := by
    simp only [Session.step, RtpJitterBuffer.push, h.started, h.nextSeq, hf]
  started := rfl
  popped := h.popped

theorem Mirrors.popNext {s : Session P} {s' : Session Q} (h : Mirrors f s s') :
    Mirrors f (s.step .popNext) (s'.step .popNext) := by
  have hslot' := h.buf s.buffer.nextSeq
  rw [← h.nextSeq] at hslot'
  cases hslot : s.buffer.buf[s.buffer.nextSeq]? with
  | none =>
      rw [h.nextSeq, hslot, Option.map_none, ← h.nextSeq] at hslot'
      rw [Session.step_popNext_none hslot, Session.step_popNext_none hslot']
      exact h
  | some pkt =>
      rw [h.nextSeq, hslot, Option.map_some, ← h.nextSeq] at hslot'
      rw [Session.step_popNext_some hslot, Session.step_popNext_some hslot']
      refine ⟨fun k => ?_, ?_, h.started, ?_⟩
      · simp only [getElem?_erase_ite, h.nextSeq, h.buf]
        split_ifs with hk
        · rfl
        · rfl
      · simp only [h.nextSeq]
      · simp only [h.popped, List.map_append, List.map_cons, List.map_nil]

/-- The numbers decide which packets are handed out, and nothing else about the packets does. -/
theorem popped_map (hf : ∀ pkt, seqOf (f pkt) = seqOf pkt) (calls : List (Call P)) :
    (run Session.step {} (calls.map (Call.map f))).popped =
      (run Session.step {} calls).popped.map f := by
  have hrun : ∀ (calls : List (Call P)) (s : Session P) (s' : Session Q), Mirrors f s s' →
      Mirrors f (run Session.step s calls) (run Session.step s' (calls.map (Call.map f))) := by
    intro calls
    induction calls with
    | nil => exact fun s s' h => h
    | cons c calls ih =>
        intro s s' h
        cases c with
        | push pkt => exact ih _ _ (h.push hf pkt)
        | popNext => exact ih _ _ h.popNext
  exact (hrun calls {} {} ⟨fun _ => rfl, rfl, rfl, rfl⟩).popped

end Mirrors

/-- The packets pushed by a list of calls. -/
def pushes {P : Type u} : List (Call P) → List P
  | [] => []
  | .push pkt :: calls => pkt :: pushes calls
  | .popNext :: calls => pushes calls

end CppMeet.Rtp.JitterBuffer
