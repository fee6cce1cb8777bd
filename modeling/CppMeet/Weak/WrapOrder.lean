import CppMeet.Weak.ReleaseOrder
import Mathlib.Data.List.Induction

/-!
# The adaptive buffer at the wrap of the numbers

`pop` takes the numerically smallest number, and `seq_gt` calls a number newer when it lies less
than half the number space ahead. The two agree as long as the buffered numbers are less than 2^15
apart as plain numbers (`NoStraddle`). Packets from both sides of the wrap from 65535 to 0 are not,
and the newer ones then leave first.
-/

set_option autoImplicit false

namespace CppMeet.Weak.WrapOrder

open CppMeet.Lib.Run CppMeet.Lib.Serial CppMeet.Lib.SortedMap CppMeet.Rtp.Packet
open CppMeet.Weak.AdaptiveBuffer

universe u v w

variable {P : Type u} {T : Type v} {D : Type w} [Sequenced P]

/-- Every packet is filed under its number. -/
def Keyed (m : JitterBuffer P T D) : Prop :=
  ∀ (k : UInt16) q, m.buf[k]? = some q → seqOf q = k

/-- The buffered numbers lie in a window of fewer than 2^15 consecutive values modulo 2^16. -/
def InWindow (m : JitterBuffer P T D) : Prop :=
  ∃ base : UInt16, ∀ (k : UInt16) q, m.buf[k]? = some q → (k - base).toNat < 32767

/-- The buffered numbers are less than 2^15 apart as plain numbers. -/
def NoStraddle (m : JitterBuffer P T D) : Prop :=
  ∀ (k k' : UInt16) q q', m.buf[k]? = some q → m.buf[k']? = some q' → k'.toNat < k.toNat + 32768

variable (timing : Timing T D)

/-- The conditions on the state and the time under which `pop` hands out a packet if it has one. -/
def Due (m : JitterBuffer P T D) (now : T) : Prop :=
  m.started = true ∧ (timing.longEnough m.targetDelayMs m.smoothedJitterMs
    (timing.elapsed now m.lastArrival) = true ∨ 10 < m.buf.size)

/-- When `pop` returns a packet, all packets that remain are newer. -/
def OldestFirst (m : JitterBuffer P T D) (now : T) : Prop :=
  ∀ pkt m', m.pop timing now = (some pkt, m') →
    ∀ (k : UInt16) q, m'.buf[k]? = some q → RtpPacket.seqGt (seqOf q) (seqOf pkt) = true

/-- The packets returned by calls of `pop` at the given times, and the buffer after them. -/
def drain (m : JitterBuffer P T D) (times : List T) : Session P T D :=
  run (Session.step timing) ⟨m, []⟩ (times.map .pop)

/-- The packets are in the order of `seq_gt`, the oldest one first. -/
def RtpOrder (pkts : List P) : Prop :=
  pkts.Pairwise fun p q => RtpPacket.seqGt (seqOf q) (seqOf p) = true

/-! ## The two orders -/

/-- Of two numbers in plain order, the greater one is newer when it is less than 2^15 away. -/
theorem seqGt_iff {k k' : UInt16} (h : k < k') :
    RtpPacket.seqGt k' k = true ↔ k'.toNat < k.toNat + 32768 := by
  have hlt := UInt16.lt_iff_toNat_lt.1 h
  have hk' := k'.toNat_lt
  have hdist : (k' - k).toNat = k'.toNat - k.toNat := by
    rw [UInt16.toNat_sub]
    omega
  have hsign := zero_lt_toInt16 (k' - k)
  rw [hdist] at hsign
  rw [RtpPacket.seqGt, decide_eq_true_eq, gt_iff_lt, hsign]
  omega

omit [Sequenced P] in
/-- No packet straddles the wrap exactly if the order of the numbers is that of the stream. -/
theorem noStraddle_iff (m : JitterBuffer P T D) : NoStraddle m ↔
    ∀ (k k' : UInt16) q q', m.buf[k]? = some q → m.buf[k']? = some q' → k < k' →
      RtpPacket.seqGt k' k = true := by
  constructor
  · intro h k k' q q' hq hq' hlt
    exact (seqGt_iff hlt).2 (h k k' q q' hq hq')
  · intro h k k' q q' hq hq'
    by_cases hlt : k < k'
    · exact (seqGt_iff hlt).1 (h k k' q q' hq hq' hlt)
    · have hle := UInt16.le_iff_toNat_le.1 (UInt16.not_lt.1 hlt)
      omega

/-! ## One call of `pop` -/

section Pop

variable {timing} {m : JitterBuffer P T D} {now : T}

omit [Sequenced P]

/-- Before the delay is over nothing is popped. -/
theorem pop_of_not_due (h : ¬ Due timing m now) : m.pop timing now = (none, m) := by
  rcases hcase : m.buf.isEmpty with _ | _
  · unfold JitterBuffer.pop
    rw [Due, not_and_or] at h
    split_ifs with hempty hstarted hdue
    · rfl
    · rfl
    · simp only [Bool.or_eq_true, decide_eq_true_eq] at hdue
      exact absurd hdue (h.resolve_left (not_not.2 (by simpa using hstarted)))
    · rfl
  · rw [JitterBuffer.pop, if_pos hcase]

/-- The packet with the smallest number is handed out. -/
theorem pop_of_due (h : Due timing m now) {k : UInt16} {q : P} (hq : m.buf[k]? = some q) :
    ∃ seq pkt, m.buf[seq]? = some pkt ∧
      (∀ (k : UInt16) q, m.buf[k]? = some q → k ≠ seq → seq < k) ∧
      m.pop timing now = (some pkt, { m with buf := m.buf.erase seq }) := by
  rcases m.pop_cases timing now with hnone | hsome
  · -- the list of the entries has a first one
    exfalso
    have hne := isEmpty_eq_false hq
    have hdue : (timing.longEnough m.targetDelayMs m.smoothedJitterMs
        (timing.elapsed now m.lastArrival) || decide (m.buf.size > 10)) = true := by
      rw [Bool.or_eq_true, decide_eq_true_eq]
      exact h.2
    cases hlist : m.buf.toList with
    | nil =>
        rw [← Std.TreeMap.isEmpty_toList, hlist] at hne
        cases hne
    | cons entry rest =>
        simp only [JitterBuffer.pop, hne, h.1, hdue, hlist] at hnone
        simp at hnone
  · exact hsome

end Pop

section Keyed

variable {timing} {m : JitterBuffer P T D}

/-- The oldest packet is popped exactly if none straddles the wrap, or nothing is due. -/
theorem oldestFirst_iff (h : Keyed m) (now : T) :
    OldestFirst timing m now ↔ (Due timing m now → NoStraddle m) := by
  constructor
  · intro hold hdue k k' q q' hq hq'
    obtain ⟨seq, pkt, hslot, hmin, hpop⟩ := pop_of_due hdue hq
    -- no number is 2^15 or more beyond the smallest one
    have hnear : ∀ (k : UInt16) q, m.buf[k]? = some q → seq.toNat ≤ k.toNat ∧
        k.toNat < seq.toNat + 32768 := by
      intro k q hq
      by_cases hseq : k = seq
      · rw [hseq]
        omega
      · have hlt := hmin k q hq hseq
        have hnewer := hold pkt _ hpop k q (getElem?_erase_eq_some_iff.2 ⟨hseq, hq⟩)
        rw [h k q hq, h seq pkt hslot] at hnewer
        exact ⟨(UInt16.lt_iff_toNat_lt.1 hlt).le, (seqGt_iff hlt).1 hnewer⟩
    have hk := (hnear k q hq).1
    have hk' := (hnear k' q' hq').2
    omega
  · intro hno pkt m' hpop k q hq
    by_cases hdue : Due timing m now
    · rcases m.pop_cases timing now with hnone | ⟨seq, pkt', hslot, hmin, hsome⟩
      · rw [hnone] at hpop
        exact absurd (congrArg Prod.fst hpop) (Option.some_ne_none pkt).symm
      · rw [hsome] at hpop
        obtain ⟨hpkt, rfl⟩ := Prod.mk.inj hpop
        obtain rfl := Option.some.inj hpkt
        obtain ⟨hne, hold⟩ := getElem?_erase_eq_some_iff.1 hq
        rw [h k q hold, h seq _ hslot]
        exact (noStraddle_iff m).1 (hno hdue) seq k _ q hslot hold (hmin k q hold hne)
    · rw [pop_of_not_due hdue] at hpop
      exact absurd (congrArg Prod.fst hpop) (Option.some_ne_none pkt).symm

/-! ## Draining -/

/-- The packets of `m` have been handed out in plain order as far as they no longer wait. -/
structure Drained (m : JitterBuffer P T D) (s : Session P T D) : Prop where
  kept : ∀ (k : UInt16) q, s.buffer.buf[k]? = some q → m.buf[k]? = some q
  filed : ∀ r ∈ s.released, m.buf[seqOf r]? = some r
  covered : ∀ (k : UInt16) q, m.buf[k]? = some q → s.buffer.buf[k]? = some q ∨ q ∈ s.released
  sorted : s.released.Pairwise fun p q => seqOf p < seqOf q
  below : ∀ r ∈ s.released, ∀ (k : UInt16) q, s.buffer.buf[k]? = some q → seqOf r < k

theorem Drained.init (m : JitterBuffer P T D) : Drained m ⟨m, []⟩ where
  kept _ _ hq := hq
  filed _ hr := absurd hr List.not_mem_nil
  covered _ _ hq := Or.inl hq
  sorted := List.Pairwise.nil
  below _ hr := absurd hr List.not_mem_nil

theorem Drained.pop (hkeyed : Keyed m) {s : Session P T D} (h : Drained m s) (now : T) :
    Drained m (s.step timing (.pop now)) := by
  rcases s.step_pop_cases timing now with hsame | ⟨seq, pkt, hslot, hmin, hstep⟩
  · rw [hsame]
    exact h
  · -- the packet with the smallest number goes out
    have hseq := hkeyed seq pkt (h.kept seq pkt hslot)
    rw [hstep]
    refine ⟨?_, ?_, ?_, ?_, ?_⟩
    · intro k q hq
      exact h.kept k q (getElem?_erase_eq_some_iff.1 hq).2
    · intro r hr
      rcases List.mem_append.1 hr with hr | hr
      · exact h.filed r hr
      · obtain rfl := List.mem_singleton.1 hr
        rw [hseq]
        exact h.kept seq r hslot
    · intro k q hq
      rcases h.covered k q hq with hwaits | hout
      · -- the packet that goes out is no longer filed, but handed out
        by_cases hk : k = seq
        · rw [hk, hslot] at hwaits
          have hpacket : q = _ := (Option.some.inj hwaits).symm
          exact Or.inr (List.mem_append_right _ (List.mem_singleton.2 hpacket))
        · exact Or.inl (getElem?_erase_eq_some_iff.2 ⟨hk, hwaits⟩)
      · exact Or.inr (List.mem_append_left _ hout)
    · -- those handed out before were below all that were filed, so below this one
      rw [List.pairwise_append]
      refine ⟨h.sorted, List.pairwise_singleton _ _, ?_⟩
      intro r hr p hp
      obtain rfl := List.mem_singleton.1 hp
      rw [hseq]
      exact h.below r hr seq p hslot
    · intro r hr k q hq
      obtain ⟨hne, hold⟩ := getElem?_erase_eq_some_iff.1 hq
      rcases List.mem_append.1 hr with hr | hr
      · exact h.below r hr k q hold
      · -- this one is below the rest, being the smallest
        obtain rfl := List.mem_singleton.1 hr
        rw [hseq]
        exact hmin k q hold hne

theorem drained_drain (hkeyed : Keyed m) (times : List T) :
    Drained m (drain timing m times) := by
  induction times using List.reverseRecOn with
  | nil => exact Drained.init m
  | append_singleton times now ih =>
      rw [drain, List.map_append, List.map_singleton, run_concat]
      exact ih.pop hkeyed now

/-- Once the buffer is empty, its packets have left in the order of `seq_gt` exactly when their
numbers are less than 2^15 apart. -/
theorem rtpOrder_drain_iff (hkeyed : Keyed m) {times : List T}
    (hempty : ∀ k : UInt16, (drain timing m times).buffer.buf[k]? = none) :
    RtpOrder (drain timing m times).released ↔ NoStraddle m := by
  have h : Drained m (drain timing m times) := drained_drain hkeyed times
  rw [noStraddle_iff]
  constructor
  · intro horder k k' q q' hq hq' hlt
    -- both packets have left, the one with the smaller number before the other one
    have hout (k : UInt16) (q : P) (hq : m.buf[k]? = some q) :
        q ∈ (drain timing m times).released := by
      rcases h.covered k q hq with hwaits | hout
      · rw [hempty] at hwaits
        cases hwaits
      · exact hout
    obtain ⟨i, hi, rfl⟩ := List.getElem_of_mem (hout k q hq)
    obtain ⟨j, hj, rfl⟩ := List.getElem_of_mem (hout k' q' hq')
    have hk := hkeyed k _ hq
    have hk' := hkeyed k' _ hq'
    rcases Nat.lt_trichotomy i j with hij | hij | hij
    · rw [← hk, ← hk']
      exact List.pairwise_iff_getElem.1 horder i j hi hj hij
    · subst hij
      exact absurd (hk.symm.trans hk') (UInt16.ne_of_lt hlt)
    · have hgt := List.pairwise_iff_getElem.1 h.sorted j i hj hi hij
      rw [hk, hk'] at hgt
      exact absurd hlt (UInt16.lt_asymm hgt)
  · intro hno
    refine h.sorted.imp_of_mem ?_
    intro p q hp hq hlt
    exact hno _ _ p q (h.filed p hp) (h.filed q hq) hlt

end Keyed

/-! ## All states -/

/-- `push` files a packet under its number, and no call files it anywhere else. -/
theorem keyed_run (target : Int32) (calls : List (Call P T)) :
    Keyed (run (Session.step timing) (Session.init timing target) calls).buffer := by
  induction calls using List.reverseRecOn with
  | nil =>
      intro k q hq
      rw [run_nil, show (Session.init timing target).buffer.buf[k]? = none from
        Std.TreeMap.getElem?_emptyc] at hq
      cases hq
  | append_singleton calls c ih =>
      rw [run_concat]
      cases c with
      | push now pkt =>
          intro k q hq
          -- the packet is filed under its own number
          rcases (JitterBuffer.slot_push_iff timing).1 hq with ⟨rfl, -, rfl⟩ | hold
          · rfl
          · exact ih k q hold
      | pop now =>
          intro k q hq
          rcases (run (Session.step timing) (Session.init timing target) calls).buffer.pop_cases
            timing now with hnone | ⟨seq, pkt, -, -, hsome⟩
          · rw [Session.step, hnone] at hq
            exact ih k q hq
          · rw [Session.step, hsome] at hq
            -- what stays was filed before
            exact ih k q (getElem?_erase_eq_some_iff.1 hq).2

/-- The buffers that calls lead to have every packet under its number. Of such a buffer, `pop`
returns a packet older than all that remain exactly when it returns nothing or the numbers are less
than 2^15 apart, and calls of `pop` that empty the buffer return the packets in their order exactly
when the numbers are less than 2^15 apart. -/
theorem pop_oldest_first (timing : Timing T D) :
    (∀ (target : Int32) (calls : List (Call P T)),
      Keyed (run (Session.step timing) (Session.init timing target) calls).buffer) ∧
      ∀ m : JitterBuffer P T D, Keyed m →
        (∀ now, OldestFirst timing m now ↔ (Due timing m now → NoStraddle m)) ∧
        ∀ times, (∀ k : UInt16, (drain timing m times).buffer.buf[k]? = none) →
          (RtpOrder (drain timing m times).released ↔ NoStraddle m) :=
  ⟨keyed_run timing, fun _ hkeyed =>
    ⟨oldestFirst_iff hkeyed, fun _ hempty => rtpOrder_drain_iff hkeyed hempty⟩⟩

/-- Packets 65535 and 0 wait. -/
def wrapBuffer : JitterBuffer RtpPacket ℤ ℚ :=
  (run (Session.step ReleaseOrder.exactTiming) (.init ReleaseOrder.exactTiming 100)
    [.push 0 (RtpPacket.build 96 65535 0 0 []), .push 0 (RtpPacket.build 96 0 0 0 [])]).buffer

theorem inWindow_wrapBuffer : InWindow wrapBuffer := by
  have hslots : wrapBuffer.buf.toList.map Prod.fst = [0, 65535] := by decide +kernel
  refine ⟨65535, fun k q hq => ?_⟩
  have hmem := List.mem_map_of_mem (f := Prod.fst)
    (Std.TreeMap.mem_toList_iff_getElem?_eq_some.2 hq)
  rw [hslots, List.mem_cons, List.mem_singleton] at hmem
  rcases hmem with rfl | rfl
  · decide
  · decide

/-- Packet 0 is the newer one and leaves first. -/
theorem pop_newest_first :
    ¬ ∀ m : JitterBuffer RtpPacket ℤ ℚ, Keyed m → InWindow m →
      ∀ now, OldestFirst ReleaseOrder.exactTiming m now := by
  intro hall
  have hkeyed : Keyed wrapBuffer := keyed_run _ _ _
  have hold := hall wrapBuffer hkeyed inWindow_wrapBuffer 200
  have hdue : Due ReleaseOrder.exactTiming wrapBuffer 200 :=
    ⟨by decide +kernel, Or.inl (by decide +kernel)⟩
  obtain ⟨q, hq⟩ := Option.isSome_iff_exists.1 (show wrapBuffer.buf[(0 : UInt16)]?.isSome by
    decide +kernel)
  obtain ⟨q', hq'⟩ := Option.isSome_iff_exists.1 (show wrapBuffer.buf[(65535 : UInt16)]?.isSome by
    decide +kernel)
  exact absurd ((oldestFirst_iff hkeyed 200).1 hold hdue 0 65535 q q' hq hq') (by decide)

end CppMeet.Weak.WrapOrder
