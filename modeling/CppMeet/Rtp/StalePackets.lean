import CppMeet.Rtp.JitterBuffer
import Mathlib.Order.Lattice
import Mathlib.Algebra.Order.Group.Unbundled.Abs
import Mathlib.Algebra.Order.Group.Int

/-!
# Stale packets in the jitter buffer

Packets carry unbounded numbers here, and every push lies within half a cycle of the number that is
due. The buffer sees the numbers modulo 2^16 only. A packet that arrives after its turn is filed all
the same, and it keeps its slot when the packet of the next cycle arrives, so it is handed out in
place of that packet. The packets come out with consecutive numbers exactly in the runs that stop
before this happens (`inOrder_iff`), and in particular where no packet is late.
-/

set_option autoImplicit false

namespace CppMeet.Rtp.StalePackets

open CppMeet.Lib.Run CppMeet.Lib.Serial CppMeet.Lib.SortedMap CppMeet.Rtp.JitterBuffer
open CppMeet.Rtp.Packet

/-- The number of the first packet pushed. -/
def firstNumber (calls : List (Call Numbered)) : ℤ :=
  ((pushes calls).head?.map Numbered.number).getD 0

/-- The number that is due, where `e0` is the number of the first packet. -/
def due (e0 : ℤ) (s : Session Numbered) : ℤ := e0 + s.popped.length

/-- A packet is pushed within half a cycle of the number that is due. -/
def InWindow (e0 : ℤ) (s : Session Numbered) : Call Numbered → Prop
  | .push pkt => |pkt.number - due e0 s| < 32768
  | .popNext => True

/-- The packets have come out with consecutive numbers. -/
def InOrder (e0 : ℤ) (s : Session Numbered) : Prop :=
  ∀ (k : ℕ) pkt, s.popped[k]? = some pkt → pkt.number = e0 + k

/-- A packet that is late when it is pushed is not passed by a full cycle before `final` is due. -/
def LateButHarmless (e0 final : ℤ) (s : Session Numbered) : Call Numbered → Prop
  | .push pkt => pkt.number < due e0 s → final ≤ pkt.number + 65536
  | .popNext => True

/-! ## The slots -/

/-- What holds of every run in the window. -/
structure Filed (e0 : ℤ) (s : Session Numbered) : Prop where
  nextSeq : s.buffer.started = true → s.buffer.nextSeq = .ofInt (due e0 s)
  idle : s.buffer.started = false → s.popped = [] ∧ ∀ k : UInt16, s.buffer.buf[k]? = none
  filed : ∀ k pkt, s.buffer.buf[k]? = some pkt →
    seqOf pkt = k ∧ pkt.number < due e0 s + 32768

section Runs

variable {e0 final : ℤ} {s : Session Numbered} {calls : List (Call Numbered)}

theorem due_push (pkt : Numbered) : due e0 (s.step (.push pkt)) = due e0 s := rfl

theorem Filed.init (e0 : ℤ) : Filed e0 {} where
  nextSeq h := absurd h Bool.false_ne_true
  idle _ := ⟨rfl, fun _ => Std.TreeMap.getElem?_emptyc⟩
  filed k pkt h := by
    rw [show (({} : Session Numbered).buffer.buf)[k]? = none from Std.TreeMap.getElem?_emptyc] at h
    cases h

/-- The packet under the next number has the number that is due modulo 2^16. -/
theorem Filed.emod_eq (h : Filed e0 s) {pkt : Numbered}
    (hslot : s.buffer.buf[s.buffer.nextSeq]? = some pkt) :
    s.buffer.nextSeq = .ofInt (due e0 s) ∧ pkt.number % 65536 = due e0 s % 65536 := by
  have hstarted : s.buffer.started = true := by
    rw [← Bool.not_eq_false]
    intro hidle
    rw [(h.idle hidle).2] at hslot
    cases hslot
  have hnext := h.nextSeq hstarted
  refine ⟨hnext, ofInt_eq_iff.1 ?_⟩
  rw [← hnext, ← pkt.sequence_ofInt]
  exact (h.filed _ pkt hslot).1

/-- A packet that is popped moves on what is due. -/
theorem due_popNext_some {pkt : Numbered} (hslot : s.buffer.buf[s.buffer.nextSeq]? = some pkt) :
    due e0 (s.step .popNext) = due e0 s + 1 := by
  rw [Session.step_popNext_some hslot]
  simp only [due, List.length_append, List.length_singleton]
  omega

theorem due_le_step (c : Call Numbered) : due e0 s ≤ due e0 (s.step c) := by
  cases c with
  | push pkt => exact le_rfl
  | popNext =>
      cases hslot : s.buffer.buf[s.buffer.nextSeq]? with
      | none => rw [Session.step_popNext_none hslot]
      | some pkt =>
          rw [due_popNext_some hslot]
          omega

/-- Calls whose packets stay in the window keep every packet in its slot. -/
theorem Filed.step (h : Filed e0 s) {c : Call Numbered} (hwin : InWindow e0 s c)
    (hfirst : s.buffer.started = false → ∀ pkt, c = .push pkt → pkt.number = e0) :
    Filed e0 (s.step c) := by
  cases c with
  | push pkt =>
      refine ⟨fun _ => ?_, fun hidle => ?_, fun k q hq => ?_⟩
      · simp only [Session.step, RtpJitterBuffer.push]
        cases hstarted : s.buffer.started with
        | true =>
            rw [if_pos rfl]
            exact h.nextSeq hstarted
        | false =>
            -- nothing has been handed out, so the first number itself is due
            have hdue : due e0 s = pkt.number := by
              rw [due, (h.idle hstarted).1, hfirst hstarted pkt rfl]
              simp
            rw [if_neg Bool.false_ne_true, pkt.sequence_ofInt, ← hdue]
            rfl
      · cases hidle
      · rcases RtpJitterBuffer.slot_push_iff.1 hq with ⟨rfl, -, rfl⟩ | hold
        · have hupper := (abs_lt.1 hwin).2
          exact ⟨rfl, by rw [due_push]; omega⟩
        · exact h.filed k q hold
  | popNext =>
      cases hslot : s.buffer.buf[s.buffer.nextSeq]? with
      | none =>
          rw [Session.step_popNext_none hslot]
          exact h
      | some pkt =>
          have hnext := (h.emod_eq hslot).1
          have hdue : due e0 (s.step .popNext) = due e0 s + 1 := due_popNext_some hslot
          rw [Session.step_popNext_some hslot] at hdue ⊢
          refine ⟨fun _ => ?_, fun hidle => ?_, fun k q hq => ?_⟩
          · rw [hdue, UInt16.ofInt_add, ← hnext]
            rfl
          · rw [(h.idle hidle).2] at hslot
            cases hslot
          · obtain ⟨hseq, hlt⟩ := h.filed k q (getElem?_erase_eq_some_iff.1 hq).2
            exact ⟨hseq, by omega⟩

theorem due_le_run : due e0 s ≤ due e0 (run Session.step s calls) := by
  induction calls generalizing s with
  | nil => exact le_rfl
  | cons c calls ih => exact (due_le_step c).trans ih

/-- The first push of the rest of a run starts the buffer, if it has not been started. -/
def StartsWith (e0 : ℤ) (s : Session Numbered) (calls : List (Call Numbered)) : Prop :=
  s.buffer.started = false → ∀ pkt ∈ (pushes calls).head?, pkt.number = e0

theorem StartsWith.head {c : Call Numbered} (h : StartsWith e0 s (c :: calls)) :
    s.buffer.started = false → ∀ pkt, c = .push pkt → pkt.number = e0 := by
  rintro hidle pkt rfl
  exact h hidle pkt rfl

theorem StartsWith.tail (hfiled : Filed e0 s) {c : Call Numbered}
    (h : StartsWith e0 s (c :: calls)) : StartsWith e0 (s.step c) calls := by
  cases c with
  | push pkt =>
      intro hidle
      cases hidle
  | popNext =>
      intro hidle
      cases hslot : s.buffer.buf[s.buffer.nextSeq]? with
      | none =>
          rw [Session.step_popNext_none hslot] at hidle
          exact h hidle
      | some pkt =>
          rw [Session.step_popNext_some hslot] at hidle
          rw [(hfiled.idle hidle).2] at hslot
          cases hslot

/-! ## Runs that stop in time -/

/-- A packet in the buffer is of this cycle, or the run stops before its number is due again. -/
def Timely (e0 final : ℤ) (s : Session Numbered) : Prop :=
  ∀ (k : UInt16) pkt, s.buffer.buf[k]? = some pkt →
    due e0 s ≤ pkt.number ∨ final ≤ pkt.number + 65536

/-- The packet that is handed out has the number that is due. -/
theorem Timely.number_eq (h : Timely e0 final s) (hfiled : Filed e0 s) {pkt : Numbered}
    (hslot : s.buffer.buf[s.buffer.nextSeq]? = some pkt) (hfinal : due e0 s + 1 ≤ final) :
    pkt.number = due e0 s := by
  have hmod := (hfiled.emod_eq hslot).2
  have hupper := (hfiled.filed _ pkt hslot).2
  -- it is congruent to the number that is due and less than a cycle away from it on either side
  rcases h _ pkt hslot with hfresh | hstops
  · omega
  · omega

/-- A call that is late but harmless keeps the buffer timely. -/
theorem Timely.step (h : Timely e0 final s) (hfiled : Filed e0 s) {c : Call Numbered}
    (hlate : LateButHarmless e0 final s c) (hfinal : due e0 (s.step c) ≤ final) :
    Timely e0 final (s.step c) := by
  cases c with
  | push pkt =>
      intro k q hq
      rcases RtpJitterBuffer.slot_push_iff.1 hq with ⟨-, -, rfl⟩ | hold
      · rw [due_push]
        rcases lt_or_ge q.number (due e0 s) with hlt | hge
        · exact Or.inr (hlate hlt)
        · exact Or.inl hge
      · exact h k q hold
  | popNext =>
      cases hslot : s.buffer.buf[s.buffer.nextSeq]? with
      | none =>
          rw [Session.step_popNext_none hslot]
          exact h
      | some pkt =>
          intro k q hq
          rw [due_popNext_some hslot]
          rw [Session.step_popNext_some hslot] at hq
          obtain ⟨hk, hold⟩ := getElem?_erase_eq_some_iff.1 hq
          rcases h k q hold with hfresh | hstops
          · -- a packet in another slot does not have the number that was due
            have hne : q.number ≠ due e0 s := by
              rintro hsame
              apply hk
              rw [(hfiled.emod_eq hslot).1, ← hsame, ← q.sequence_ofInt]
              exact (hfiled.filed k q hold).1.symm
            exact Or.inl (by omega)
          · exact Or.inr hstops

/-- In a timely buffer packets are popped in order. -/
theorem InOrder.step (h : InOrder e0 s) (htimely : Timely e0 final s) (hfiled : Filed e0 s)
    {c : Call Numbered} (hfinal : due e0 (s.step c) ≤ final) : InOrder e0 (s.step c) := by
  cases c with
  | push pkt => exact h
  | popNext =>
      cases hslot : s.buffer.buf[s.buffer.nextSeq]? with
      | none =>
          rw [Session.step_popNext_none hslot]
          exact h
      | some pkt =>
          rw [due_popNext_some hslot] at hfinal
          have hnumber := htimely.number_eq hfiled hslot hfinal
          intro k q hq
          rw [Session.step_popNext_some hslot, List.getElem?_append] at hq
          split_ifs at hq with hk
          · exact h k q hq
          · -- the packet that came out last
            have hzero : k - s.popped.length = 0 := by
              by_contra hpos
              rw [List.getElem?_singleton, if_neg hpos] at hq
              cases hq
            rw [hzero] at hq
            obtain rfl := Option.some.inj hq
            rw [hnumber, due]
            omega

/-- A run whose late packets are harmless pops in order. -/
theorem inOrder_of_timely (hfiled : Filed e0 s) (htimely : Timely e0 final s)
    (horder : InOrder e0 s)
    (hstart : StartsWith e0 s calls) (hwin : Along Session.step (InWindow e0) s calls)
    (hlate : Along Session.step (LateButHarmless e0 final) s calls)
    (hfinal : due e0 (run Session.step s calls) ≤ final) :
    InOrder e0 (run Session.step s calls) := by
  induction calls generalizing s with
  | nil => exact horder
  | cons c calls ih =>
      have hstep : due e0 (s.step c) ≤ final := due_le_run.trans hfinal
      exact ih (hfiled.step hwin.1 hstart.head) (htimely.step hfiled hlate.1 hstep)
        (horder.step htimely hfiled hstep) (hstart.tail hfiled) hwin.2 hlate.2 hfinal

/-! ## Runs that go on -/

/-- The slot of the packet holds a packet that is due no more, until a cycle has passed. -/
structure Stuck (e0 : ℤ) (pkt : Numbered) (s : Session Numbered) : Prop where
  late : pkt.number < due e0 s
  cycle : due e0 s ≤ pkt.number + 65536
  slot : ∃ q, s.buffer.buf[seqOf pkt]? = some q ∧ q.number ≤ pkt.number

/-- Packets that are in order after a call were so before it. -/
theorem InOrder.of_step {c : Call Numbered} (h : InOrder e0 (s.step c)) : InOrder e0 s := by
  cases c with
  | push pkt => exact h
  | popNext =>
      cases hslot : s.buffer.buf[s.buffer.nextSeq]? with
      | none => rwa [Session.step_popNext_none hslot] at h
      | some pkt =>
          rw [Session.step_popNext_some hslot] at h
          intro k q hq
          refine h k q ?_
          rw [List.getElem?_append_left (List.getElem?_eq_some_iff.1 hq).1]
          exact hq

/-- Packets that are in order at the end were so all the time. -/
theorem InOrder.of_run (h : InOrder e0 (run Session.step s calls)) : InOrder e0 s := by
  induction calls generalizing s with
  | nil => exact h
  | cons c calls ih => exact (ih h).of_step

/-- A late packet is stuck as soon as it is pushed. -/
theorem Stuck.of_push (hfiled : Filed e0 s) {pkt : Numbered}
    (hwin : InWindow e0 s (.push pkt)) (hlate : pkt.number < due e0 s) :
    Stuck e0 pkt (s.step (.push pkt)) := by
  have hlower := (abs_lt.1 hwin).1
  refine ⟨hlate, by rw [due_push]; omega, ?_⟩
  cases hslot : s.buffer.buf[seqOf pkt]? with
  | none =>
      exact ⟨pkt, RtpJitterBuffer.slot_push_iff.2 (Or.inl ⟨rfl, hslot, rfl⟩), le_rfl⟩
  | some q =>
      -- the slot is taken, by a packet that is at least as old
      obtain ⟨hseq, hupper⟩ := hfiled.filed _ q hslot
      have hmod : q.number % 65536 = pkt.number % 65536 := by
        rw [← ofInt_eq_iff, ← q.sequence_ofInt, ← pkt.sequence_ofInt]
        exact hseq
      exact ⟨q, RtpJitterBuffer.slot_push_iff.2 (Or.inr hslot), by omega⟩

/-- A stale packet stays in its slot as long as the order is kept. -/
theorem Stuck.step {pkt : Numbered} (h : Stuck e0 pkt s) (hfiled : Filed e0 s) {c : Call Numbered}
    (horder : InOrder e0 (s.step c)) : Stuck e0 pkt (s.step c) := by
  obtain ⟨hlate, hcycle, q, hq, hle⟩ := h
  cases c with
  | push p =>
      exact ⟨hlate, hcycle, q, RtpJitterBuffer.slot_push_iff.2 (Or.inr hq), hle⟩
  | popNext =>
      cases hslot : s.buffer.buf[s.buffer.nextSeq]? with
      | none =>
          rw [Session.step_popNext_none hslot]
          exact ⟨hlate, hcycle, q, hq, hle⟩
      | some p =>
          have hnext := (hfiled.emod_eq hslot).1
          -- what comes out has the number that is due
          have hnumber : p.number = due e0 s := by
            rw [Session.step_popNext_some hslot] at horder
            have hlast := horder s.popped.length p (by simp)
            rw [hlast, due]
          have hne : seqOf pkt ≠ s.buffer.nextSeq := by
            intro hsame
            rw [hsame, hslot] at hq
            obtain rfl := Option.some.inj hq
            omega
          -- a full cycle later the slot of the late packet would be due
          have hcycle' : due e0 s ≠ pkt.number + 65536 := by
            intro hdue
            apply hne
            rw [hnext, hdue, pkt.sequence_ofInt, ofInt_eq_iff]
            omega
          have hdue : due e0 (s.step .popNext) = due e0 s + 1 := due_popNext_some hslot
          rw [Session.step_popNext_some hslot] at hdue ⊢
          exact ⟨by omega, by omega, q, getElem?_erase_eq_some_iff.2 ⟨hne, hq⟩, hle⟩

/-- An order that is kept to the end ends before the slot of a stale packet comes up. -/
theorem Stuck.run {pkt : Numbered} (h : Stuck e0 pkt s) (hfiled : Filed e0 s)
    (hstart : StartsWith e0 s calls) (hwin : Along Session.step (InWindow e0) s calls)
    (horder : InOrder e0 (run Session.step s calls)) :
    due e0 (run Session.step s calls) ≤ pkt.number + 65536 := by
  induction calls generalizing s with
  | nil => exact h.cycle
  | cons c calls ih =>
      exact ih (h.step hfiled (InOrder.of_run horder)) (hfiled.step hwin.1 hstart.head)
        (hstart.tail hfiled) hwin.2 horder

/-- In a run that keeps the order all late packets are harmless. -/
theorem late_of_inOrder (hfiled : Filed e0 s) (hstart : StartsWith e0 s calls)
    (hwin : Along Session.step (InWindow e0) s calls)
    (horder : InOrder e0 (run Session.step s calls)) :
    Along Session.step (LateButHarmless e0 (due e0 (run Session.step s calls))) s calls := by
  induction calls generalizing s with
  | nil => exact along_nil s
  | cons c calls ih =>
      have hfiled' := hfiled.step hwin.1 hstart.head
      have hstart' := hstart.tail hfiled
      refine ⟨?_, ih hfiled' hstart' hwin.2 horder⟩
      cases c with
      | push pkt =>
          intro hlate
          exact (Stuck.of_push hfiled hwin.1 hlate).run hfiled' hstart' hwin.2 horder
      | popNext => trivial

end Runs

/-- The packets come out with consecutive numbers exactly when no late packet is passed by a full
cycle. -/
theorem inOrder_iff (calls : List (Call Numbered))
    (hwin : Along Session.step (InWindow (firstNumber calls)) {} calls) :
    InOrder (firstNumber calls) (run Session.step {} calls) ↔
      Along Session.step (LateButHarmless (firstNumber calls)
        (due (firstNumber calls) (run Session.step {} calls))) {} calls := by
  have hfiled := Filed.init (firstNumber calls)
  have hstart : StartsWith (firstNumber calls) {} calls := by
    intro _ pkt hpkt
    rw [firstNumber, Option.mem_def.1 hpkt]
    rfl
  have hempty : ∀ (k : UInt16) pkt, (({} : Session Numbered).buffer.buf)[k]? ≠ some pkt := by
    intro k pkt hk
    rw [(hfiled.idle rfl).2] at hk
    cases hk
  constructor
  · exact late_of_inOrder hfiled hstart hwin
  · intro hlate
    refine inOrder_of_timely hfiled (fun k pkt hk => absurd hk (hempty k pkt)) ?_ hstart hwin hlate
      le_rfl
    intro k pkt hk
    cases hk

/-- The second packet overtakes a repetition of the first, and both come out in order. -/
theorem inOrder_iff_repetition :
    InOrder 0 (run Session.step {} [.push (.ofNumber 0), .popNext, .push (.ofNumber 0),
      .push (.ofNumber 1), .popNext]) ↔
    Along Session.step (LateButHarmless 0 2) {} [.push (.ofNumber 0), .popNext,
      .push (.ofNumber 0), .push (.ofNumber 1), .popNext] := by
  refine inOrder_iff [.push (.ofNumber 0), .popNext, .push (.ofNumber 0), .push (.ofNumber 1),
    .popNext] ⟨?_, trivial, ?_, ?_, trivial, trivial⟩
  · show |(0 : ℤ) - due 0 _| < 32768
    decide
  · show |(0 : ℤ) - due 0 _| < 32768
    decide
  · show |(1 : ℤ) - due 0 _| < 32768
    decide

/-! ## A full cycle -/

/-- The packets 1 to `n`, each handed out as soon as it has arrived. -/
def lap : ℕ → List (Call Numbered)
  | 0 => []
  | n + 1 => lap n ++ [.push (.ofNumber (n + 1)), .popNext]

/-- The state in which a repetition of packet 0 is in the buffer and the packets up to `n` have been
handed out. -/
structure AfterLap (n : ℕ) (s : Session Numbered) : Prop where
  popped : s.popped.length = n + 1
  started : s.buffer.started = true
  nextSeq : s.buffer.nextSeq = .ofInt (n + 1)
  slots : ∀ k : UInt16, s.buffer.buf[k]? = if k = 0 then some (.ofNumber 0) else none

theorem AfterLap.next {n : ℕ} {s : Session Numbered} (h : AfterLap n s) (hn : n < 65535) :
    InWindow 0 s (.push (.ofNumber (n + 1))) ∧
      AfterLap (n + 1) ((s.step (.push (.ofNumber (n + 1)))).step .popNext) := by
  have hseq : seqOf (Numbered.ofNumber (n + 1)) = .ofInt (n + 1) := Numbered.sequence_ofInt _
  have hzero : UInt16.ofInt (n + 1) ≠ 0 := by
    intro h0
    have hmod := toNat_ofInt (n + 1)
    rw [h0] at hmod
    change (0 : ℤ) = _ at hmod
    omega
  -- only the slot of packet 0 is taken, and the lap does not come round to it
  have hfree : s.buffer.buf[UInt16.ofInt (n + 1)]? = none := by rw [h.slots, if_neg hzero]
  have hnext : (s.step (.push (.ofNumber (n + 1)))).buffer.nextSeq = .ofInt (n + 1) := by
    simp only [Session.step, RtpJitterBuffer.push, h.started, if_true, h.nextSeq]
  have hslots : ∀ k : UInt16, (s.step (.push (.ofNumber (n + 1)))).buffer.buf[k]? =
      if k = .ofInt (n + 1) then some (.ofNumber (n + 1)) else s.buffer.buf[k]? := by
    intro k
    simp only [Session.step, RtpJitterBuffer.getElem?_push, hseq, hfree, and_true]
  refine ⟨?_, ?_⟩
  · change |((n + 1 : ℕ) : ℤ) - (0 + (s.popped.length : ℤ))| < 32768
    rw [h.popped, zero_add, sub_self, abs_zero]
    decide
  · have hslot := hslots (.ofInt (n + 1))
    rw [if_pos rfl, ← hnext] at hslot
    rw [Session.step_popNext_some hslot]
    refine ⟨?_, rfl, ?_, fun k => ?_⟩
    · change (s.popped ++ _).length = _
      rw [List.length_append, h.popped]
      rfl
    · change (s.step (.push (.ofNumber (n + 1)))).buffer.nextSeq + 1 = _
      rw [hnext, Nat.cast_succ, UInt16.ofInt_add (n + 1)]
      rfl
    · rw [getElem?_erase_ite, hnext, hslots, h.slots]
      split_ifs with hk hk0 hk0
      · exact absurd (hk ▸ hk0) hzero
      · rfl
      · rfl
      · rfl

/-- A lap of packets that are popped as they come. -/
theorem AfterLap.lap {s : Session Numbered} (h : AfterLap 0 s) :
    ∀ n ≤ 65535, Along Session.step (InWindow 0) s (lap n) ∧
      AfterLap n (run Session.step s (StalePackets.lap n)) := by
  intro n
  induction n with
  | zero => exact fun _ => ⟨along_nil s, h⟩
  | succ n ih =>
      intro hn
      obtain ⟨hwin, hafter⟩ := ih (by omega)
      obtain ⟨hwin', hafter'⟩ := hafter.next (by omega)
      rw [StalePackets.lap, along_append, run_append]
      exact ⟨⟨hwin, hwin', trivial, trivial⟩, hafter'⟩

/-- Packet 0 is pushed again after it was handed out. -/
def repetition : List (Call Numbered) :=
  [.push (.ofNumber 0), .popNext, .push (.ofNumber 0)]

theorem afterLap_zero : AfterLap 0 (run Session.step {} repetition) where
  popped := by decide
  started := rfl
  nextSeq := by decide
  slots k := by
    have hseq : seqOf (Numbered.ofNumber 0) = 0 := by decide
    have hslot : ((({} : Session Numbered).step (.push (.ofNumber 0))).buffer.buf)[
        (({} : Session Numbered).step (.push (.ofNumber 0))).buffer.nextSeq]? =
          some (.ofNumber 0) := rfl
    have hnext : (({} : Session Numbered).step (.push (.ofNumber 0))).buffer.nextSeq = 0 := hseq
    rw [repetition, run_cons, run_cons, run_cons, run_nil, Session.step_popNext_some hslot,
      Session.step]
    simp only [RtpJitterBuffer.getElem?_push, hseq, getElem?_erase_ite, hnext]
    by_cases hk : k = 0
    · rw [if_pos hk, if_pos ⟨hk, if_pos trivial⟩]
      exact (if_pos hk).symm
    · rw [if_neg hk, if_neg fun h => hk h.1, if_neg hk, Session.step]
      simp only [RtpJitterBuffer.getElem?_push, hseq]
      rw [if_neg fun h => hk h.1]
      exact Std.TreeMap.getElem?_emptyc

/-- One more packet after a lap of a full cycle. -/
theorem AfterLap.not_inOrder {s : Session Numbered} (h : AfterLap 65535 s) :
    ¬ InOrder 0 (s.step .popNext) := by
  intro horder
  have hnext : s.buffer.nextSeq = 0 := h.nextSeq
  have hslot := h.slots 0
  rw [if_pos rfl, ← hnext] at hslot
  rw [Session.step_popNext_some hslot] at horder
  -- packet 0 comes out where packet 65536 is due
  have hlast := horder s.popped.length (.ofNumber 0) (by simp)
  rw [h.popped] at hlast
  cases hlast

/-- The repeated packet comes out one cycle late. -/
theorem not_inOrder_repetition {calls : List (Call Numbered)}
    (hwin : Along Session.step (InWindow 0) (run Session.step {} repetition) calls)
    (hafter : AfterLap 65535 (run Session.step (run Session.step {} repetition) calls)) :
    Along Session.step (InWindow (firstNumber (repetition ++ (calls ++ [.popNext])))) {}
        (repetition ++ (calls ++ [.popNext])) ∧
      ¬ InOrder (firstNumber (repetition ++ (calls ++ [.popNext])))
        (run Session.step {} (repetition ++ (calls ++ [.popNext]))) := by
  have hfirst : firstNumber (repetition ++ (calls ++ [.popNext])) = 0 := rfl
  rw [hfirst, along_append, along_append, run_append, run_append]
  refine ⟨⟨⟨?_, trivial, ?_, trivial⟩, hwin, trivial, trivial⟩, hafter.not_inOrder⟩
  · show |(0 : ℤ) - due 0 _| < 32768
    decide
  · show |(0 : ℤ) - due 0 _| < 32768
    decide

/-- A full cycle of packets follows the repetition, and the next packet to come out is packet 0
again, in place of packet 65536. -/
def cycleCalls : List (Call Numbered) := repetition ++ (lap 65535 ++ [.popNext])

theorem not_inOrder_cycleCalls :
    Along Session.step (InWindow (firstNumber cycleCalls)) {} cycleCalls ∧
      ¬ InOrder (firstNumber cycleCalls) (run Session.step {} cycleCalls) := by
  -- the list of calls is kept from being unfolded
  have hlap := afterLap_zero.lap 65535
  generalize hcalls : lap 65535 = calls at hlap
  obtain ⟨hwin, hafter⟩ := hlap le_rfl
  rw [cycleCalls, hcalls]
  exact not_inOrder_repetition hwin hafter

end CppMeet.Rtp.StalePackets
