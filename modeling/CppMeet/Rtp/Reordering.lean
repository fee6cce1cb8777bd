import CppMeet.Rtp.JitterBuffer

/-!
# The jitter buffer restores the order

A stream of at most 65535 packets with consecutive sequence numbers is pushed into the buffer in
any order, its first packet first, with repetitions and with calls of `popNext` in between. The
packets handed out are a prefix of the stream at any time, and the rest of the stream follows once
all of it has arrived (`popped_isPrefix_and_completes`).

A packet that arrives again after it was handed out stays in the buffer. It does no harm, since its
number would be due again only after 65536 packets.
-/

set_option autoImplicit false

namespace CppMeet.Rtp.Reordering

open CppMeet.Lib.Run CppMeet.Lib.SortedMap CppMeet.Rtp.JitterBuffer CppMeet.Rtp.Packet

universe u

variable {P : Type u} [Sequenced P]

/-- The packets have consecutive numbers from `start` on. -/
def InSequence (start : UInt16) (stream : List P) : Prop :=
  ∀ i pkt, stream[i]? = some pkt → seqOf pkt = start + UInt16.ofNat i

/-- What the session holds after the packets `arrived` of the stream have been pushed. -/
structure Sorted (start : UInt16) (stream arrived : List P) (s : Session P) : Prop where
  ordered : s.popped <+: stream
  nextSeq : s.buffer.started = true →
    s.buffer.nextSeq = start + UInt16.ofNat s.popped.length
  idle : s.buffer.started = false →
    arrived = [] ∧ s.popped = [] ∧ ∀ k : UInt16, s.buffer.buf[k]? = none
  filed : ∀ k pkt, s.buffer.buf[k]? = some pkt → pkt ∈ stream ∧ seqOf pkt = k
  waiting : ∀ i pkt, s.popped.length ≤ i → stream[i]? = some pkt → pkt ∈ arrived →
    s.buffer.buf[seqOf pkt]? = some pkt

section Stream

variable {start : UInt16} {stream arrived : List P} {s : Session P}

/-- Different places of a stream of at most 65535 packets have different sequence numbers. -/
theorem start_add_inj {i j : ℕ} (hi : i < 65536) (hj : j < 65536)
    (h : start + UInt16.ofNat i = start + UInt16.ofNat j) : i = j := by
  have hij : UInt16.ofNat i = UInt16.ofNat j := by
    rw [UInt16.add_comm, UInt16.add_comm start] at h
    rw [← UInt16.add_sub_cancel (UInt16.ofNat i) start, h, UInt16.add_sub_cancel]
  rw [← UInt16.toNat_inj, UInt16.toNat_ofNat', UInt16.toNat_ofNat'] at hij
  omega

/-- A packet of the stream is known by its number. -/
theorem InSequence.getElem? (hseq : InSequence start stream) (hlen : stream.length ≤ 65535)
    {pkt : P} (hmem : pkt ∈ stream) {i : ℕ} (hi : i ≤ stream.length)
    (hnum : seqOf pkt = start + UInt16.ofNat i) : stream[i]? = some pkt := by
  obtain ⟨j, hj⟩ := List.mem_iff_getElem?.1 hmem
  have hjlen : j < stream.length := (List.getElem?_eq_some_iff.1 hj).1
  have hij : i = j := by
    have hstart : start + UInt16.ofNat i = start + UInt16.ofNat j := by
      rw [← hnum]
      exact hseq j pkt hj
    exact start_add_inj (by omega) (by omega) hstart
  rw [hij]
  exact hj

/-- Nothing is buffered before the first call. -/
theorem Sorted.init (start : UInt16) (stream : List P) : Sorted start stream [] {} where
  ordered := List.nil_prefix
  nextSeq h := absurd h Bool.false_ne_true
  idle _ := ⟨rfl, rfl, fun _ => Std.TreeMap.getElem?_emptyc⟩
  filed k pkt h := by
    rw [show (({} : Session P).buffer.buf)[k]? = none from Std.TreeMap.getElem?_emptyc] at h
    cases h
  waiting i pkt _ _ h := absurd h List.not_mem_nil

/-- A packet of the stream goes to its place. -/
theorem Sorted.push (h : Sorted start stream arrived s) (hseq : InSequence start stream)
    (hlen : stream.length ≤ 65535) {pkt : P} (hmem : pkt ∈ stream)
    (hfirst : arrived = [] → stream.head? = some pkt) :
    Sorted start stream (arrived ++ [pkt]) (s.step (.push pkt)) where
  ordered := h.ordered
  nextSeq _ := by
    simp only [Session.step, RtpJitterBuffer.push]
    cases hstarted : s.buffer.started with
    | true =>
        rw [if_pos rfl]
        exact h.nextSeq hstarted
    | false =>
        -- the first packet to arrive is the first one of the stream
        obtain ⟨hnone, hpopped, -⟩ := h.idle hstarted
        have hhead := hfirst hnone
        rw [List.head?_eq_getElem?] at hhead
        rw [if_neg Bool.false_ne_true, hpopped]
        exact hseq 0 pkt hhead
  idle hstarted := by cases hstarted
  filed k q hq := by
    rcases RtpJitterBuffer.slot_push_iff.1 hq with ⟨rfl, -, rfl⟩ | hold
    · exact ⟨hmem, rfl⟩
    · exact h.filed k q hold
  waiting i q hi hq harrived := by
    apply RtpJitterBuffer.slot_push_iff.2
    rcases List.mem_append.1 harrived with hold | hnew
    · exact Or.inr (h.waiting i q hi hq hold)
    · obtain rfl := List.mem_singleton.1 hnew
      cases hslot : s.buffer.buf[seqOf q]? with
      | none => exact Or.inl ⟨rfl, rfl, rfl⟩
      | some r =>
          -- the slot can only hold the same packet
          obtain ⟨hr, hnum⟩ := h.filed _ r hslot
          have hilen : i < stream.length := (List.getElem?_eq_some_iff.1 hq).1
          have hsame := hseq.getElem? hlen hr hilen.le (hnum.trans (hseq i q hq))
          exact Or.inr (hsame.symm.trans hq)

/-- What is popped is the next packet of the stream. -/
theorem Sorted.popNext (h : Sorted start stream arrived s) (hseq : InSequence start stream)
    (hlen : stream.length ≤ 65535) : Sorted start stream arrived (s.step .popNext) := by
  cases hslot : s.buffer.buf[s.buffer.nextSeq]? with
  | none =>
      rw [Session.step_popNext_none hslot]
      exact h
  | some pkt =>
      have hstarted : s.buffer.started = true := by
        rw [← Bool.not_eq_false]
        intro hidle
        rw [(h.idle hidle).2.2] at hslot
        cases hslot
      have hnext := h.nextSeq hstarted
      obtain ⟨hmem, hnum⟩ := h.filed _ pkt hslot
      obtain ⟨rest, hrest⟩ := h.ordered
      have hsplit : s.popped.length + rest.length = stream.length := by
        rw [← hrest, List.length_append]
      -- the packet under the next number is the next one of the stream
      have hpkt := hseq.getElem? hlen hmem (by omega) (hnum.trans hnext)
      rw [Session.step_popNext_some hslot]
      refine ⟨?_, fun _ => ?_, fun hidle => ?_, fun k q hq => ?_, fun i q hi hq harrived => ?_⟩
      · rw [← hrest, List.getElem?_append_right le_rfl, Nat.sub_self] at hpkt
        cases rest with
        | nil => cases hpkt
        | cons q rest =>
            obtain rfl := Option.some.inj hpkt
            exact ⟨rest, by rw [List.append_assoc]; exact hrest⟩
      · rw [List.length_append, List.length_singleton, hnext, UInt16.add_assoc, UInt16.ofNat_add]
        rfl
      · rw [hstarted] at hidle
        cases hidle
      · exact h.filed k q (getElem?_erase_eq_some_iff.1 hq).2
      · rw [List.length_append, List.length_singleton] at hi
        have hilen : i < stream.length := (List.getElem?_eq_some_iff.1 hq).1
        -- a later packet of the stream has another number, as the stream is shorter than a cycle
        refine getElem?_erase_eq_some_iff.2 ⟨?_, h.waiting i q (by omega) hq harrived⟩
        rw [hseq i q hq, hnext]
        intro hsame
        have hindex := start_add_inj (by omega) (by omega) hsame
        omega

/-- A whole list of calls. -/
theorem Sorted.run (h : Sorted start stream arrived s) (hseq : InSequence start stream)
    (hlen : stream.length ≤ 65535) {calls : List (Call P)}
    (hpush : ∀ pkt ∈ pushes calls, pkt ∈ stream)
    (hfirst : arrived = [] → ∀ pkt ∈ (pushes calls).head?, stream.head? = some pkt) :
    Sorted start stream (arrived ++ pushes calls) (run Session.step s calls) := by
  induction calls generalizing arrived s with
  | nil =>
      rw [pushes, List.append_nil]
      exact h
  | cons c calls ih =>
      cases c with
      | push pkt =>
          obtain ⟨hpkt, hrest⟩ := List.forall_mem_cons.1 hpush
          have hstep := h.push hseq hlen hpkt fun hnone => hfirst hnone pkt rfl
          have hrun := ih hstep hrest fun hnone => absurd hnone (by simp)
          rwa [List.append_assoc] at hrun
      | popNext => exact ih (h.popNext hseq hlen) hpush hfirst

/-- Once everything has arrived, the packets that are left come out in order. -/
theorem Sorted.popAll (hseq : InSequence start stream) (hlen : stream.length ≤ 65535)
    (harrived : ∀ pkt ∈ stream, pkt ∈ arrived) (m : RtpJitterBuffer P) (popped : List P)
    (h : Sorted start stream arrived ⟨m, popped⟩) : popped ++ m.popAll.1 = stream := by
  induction m using RtpJitterBuffer.popAll.induct generalizing popped with
  | case1 m m' hpop =>
      rw [RtpJitterBuffer.popAll_none hpop, List.append_nil]
      obtain ⟨rest, hrest⟩ := h.ordered
      cases rest with
      | nil => rwa [List.append_nil] at hrest
      | cons pkt rest =>
          -- the next packet of the stream is waiting under the next number
          have hpkt : stream[popped.length]? = some pkt := by
            rw [← hrest, List.getElem?_append_right le_rfl, Nat.sub_self]
            rfl
          have hmem := harrived pkt (List.mem_iff_getElem?.2 ⟨_, hpkt⟩)
          have hslot := h.waiting _ pkt le_rfl hpkt hmem
          have hstarted : m.started = true := by
            rw [← Bool.not_eq_false]
            intro hidle
            rw [(h.idle hidle).1] at hmem
            exact absurd hmem List.not_mem_nil
          rw [hseq _ pkt hpkt, ← h.nextSeq hstarted] at hslot
          rw [RtpJitterBuffer.popNext_some hslot] at hpop
          cases hpop
  | case2 m pkt m' hpop hsize ih =>
      have hstep := h.popNext hseq hlen
      rw [Session.step, hpop] at hstep
      have hrest := ih _ hstep
      rw [RtpJitterBuffer.popAll_some hpop, ← hrest]
      simp only [Option.toList_some, List.append_assoc, List.singleton_append]

end Stream

/-- What is handed out is a prefix of the stream, and all of the stream once all of it has
arrived. -/
theorem popped_isPrefix_and_completes {start : UInt16} {stream : List P}
    (hseq : InSequence start stream) (hlen : stream.length ≤ 65535) (calls : List (Call P))
    (hpush : ∀ pkt ∈ pushes calls, pkt ∈ stream)
    (hfirst : ∀ pkt ∈ (pushes calls).head?, stream.head? = some pkt) :
    (run Session.step {} calls).popped <+: stream ∧
      ((∀ pkt ∈ stream, pkt ∈ pushes calls) →
        (run Session.step {} calls).popped ++ (run Session.step {} calls).buffer.popAll.1 =
          stream) := by
  have hrun := (Sorted.init start stream).run hseq hlen hpush fun _ => hfirst
  rw [List.nil_append] at hrun
  exact ⟨hrun.ordered, fun harrived => Sorted.popAll hseq hlen harrived _ _ hrun⟩

/-- Three packets around the end of the number space. -/
def threePackets : List RtpPacket :=
  [.build 96 65535 0 0 [1], .build 96 0 0 0 [2], .build 96 1 0 0 [3]]

theorem inSequence_threePackets : InSequence 65535 threePackets := by
  intro i pkt hpkt
  rcases i with _ | _ | _ | i
  · obtain rfl := Option.some.inj hpkt
    rfl
  · obtain rfl := Option.some.inj hpkt
    rfl
  · obtain rfl := Option.some.inj hpkt
    rfl
  · cases hpkt

/-- The first packet arrives twice and the last one before the second. -/
def shuffledCalls : List (Call RtpPacket) :=
  [.push (.build 96 65535 0 0 [1]), .popNext, .push (.build 96 1 0 0 [3]), .popNext,
    .push (.build 96 65535 0 0 [1]), .push (.build 96 0 0 0 [2]), .popNext]

theorem popped_isPrefix_and_completes_shuffledCalls :
    (run Session.step {} shuffledCalls).popped <+: threePackets ∧
      (run Session.step {} shuffledCalls).popped ++
        (run Session.step {} shuffledCalls).buffer.popAll.1 = threePackets := by
  have h := popped_isPrefix_and_completes inSequence_threePackets (by decide) shuffledCalls
    (by decide) (by decide)
  exact ⟨h.1, h.2 (by decide)⟩

end CppMeet.Rtp.Reordering
