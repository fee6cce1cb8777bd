import CppMeet.Lib.Serial
import CppMeet.Weak.AdaptiveBuffer
import Mathlib.Data.Rat.Defs
import Mathlib.Algebra.Order.Ring.Rat

/-!
# The order in which the adaptive buffer releases packets

The adaptive buffer keeps no record of what it has handed out, and the numeric order of the 16-bit
numbers is the order of the packets only within one cycle. An arrival fits when its number is taken,
so that it is dropped, or when it is newer than everything handed out and the 16-bit numbers order
it among the waiting packets as the unbounded numbers do. Where every arrival fits, the packets are
handed out in strictly increasing order; once one does not, they are not, as soon as the buffer has
been emptied (`released_increasing`).
-/

set_option autoImplicit false

namespace CppMeet.Weak.ReleaseOrder

open CppMeet.Lib.Run CppMeet.Lib.Serial CppMeet.Lib.SortedMap CppMeet.Rtp.Packet
open CppMeet.Weak.AdaptiveBuffer

universe v w

variable {T : Type v} {D : Type w}

/-- The packets have been handed out in strictly increasing order. -/
def Increasing (s : Session Numbered T D) : Prop :=
  s.released.Pairwise fun p q => p.number < q.number

/-- The arrival is dropped, or newer than all packets handed out and in its place among those that
wait. -/
def Fits (s : Session Numbered T D) : Call Numbered T → Prop
  | .push _ pkt =>
      (∃ q, s.buffer.buf[seqOf pkt]? = some q) ∨
        (∀ r ∈ s.released, r.number < pkt.number) ∧
          ∀ (k : UInt16) q, s.buffer.buf[k]? = some q →
            (q.number < pkt.number ↔ k < seqOf pkt)
  | .pop _ => True

/-- The slots of the buffer. -/
structure Filed (s : Session Numbered T D) : Prop where
  idle : s.buffer.started = false → ∀ k : UInt16, s.buffer.buf[k]? = none
  filed : ∀ (k : UInt16) q, s.buffer.buf[k]? = some q → seqOf q = k

/-- What holds as long as every arrival fits. -/
structure Ready (s : Session Numbered T D) : Prop where
  increasing : Increasing s
  newer : ∀ r ∈ s.released, ∀ (k : UInt16) q, s.buffer.buf[k]? = some q → r.number < q.number
  sorted : ∀ (k k' : UInt16) q q', s.buffer.buf[k]? = some q → s.buffer.buf[k']? = some q' →
    k < k' → q.number < q'.number

section Steps

variable {timing : Timing T D} {s : Session Numbered T D}

theorem Filed.init (target : Int32) : Filed (Session.init (P := Numbered) timing target) where
  idle _ _ := Std.TreeMap.getElem?_emptyc
  filed k q h := by
    rw [show (Session.init (P := Numbered) timing target).buffer.buf[k]? = none from
      Std.TreeMap.getElem?_emptyc] at h
    cases h

theorem Ready.init (target : Int32) : Ready (Session.init (P := Numbered) timing target) where
  increasing := List.Pairwise.nil
  newer r hr := absurd hr List.not_mem_nil
  sorted k k' q q' hq := by
    rw [show (Session.init (P := Numbered) timing target).buffer.buf[k]? = none from
      Std.TreeMap.getElem?_emptyc] at hq
    cases hq

/-- Every call keeps the packets in their slots. -/
theorem Filed.step (h : Filed s) (c : Call Numbered T) : Filed (s.step timing c) := by
  cases c with
  | push now pkt =>
      refine ⟨fun hidle => ?_, fun k q hq => ?_⟩
      · cases hidle
      · rcases (JitterBuffer.slot_push_iff timing).1 hq with ⟨rfl, -, rfl⟩ | hold
        · rfl
        · exact h.filed k q hold
  | pop now =>
      rcases s.step_pop_cases timing now with hsame | ⟨seq, pkt, hslot, -, hstep⟩
      · rw [hsame]
        exact h
      · rw [hstep]
        refine ⟨fun hidle k => ?_, fun k q hq => ?_⟩
        · rw [h.idle hidle] at hslot
          cases hslot
        · exact h.filed k q (getElem?_erase_eq_some_iff.1 hq).2

/-- A packet that waits after an arrival that fits waited before, or it is the one that arrived,
newer than all packets handed out and in its place. -/
theorem slot_of_push {now : T} {pkt : Numbered} (hfits : Fits s (.push now pkt)) {k : UInt16}
    {q : Numbered} (hq : (s.step timing (.push now pkt)).buffer.buf[k]? = some q) :
    s.buffer.buf[k]? = some q ∨
      q = pkt ∧ k = seqOf pkt ∧ (∀ r ∈ s.released, r.number < pkt.number) ∧
        ∀ (k : UInt16) q, s.buffer.buf[k]? = some q →
          (q.number < pkt.number ↔ k < seqOf pkt) := by
  rcases (JitterBuffer.slot_push_iff timing).1 hq with ⟨hk, hnone, hpkt⟩ | hold
  · rcases hfits with ⟨p, hp⟩ | hnew
    · rw [hnone] at hp
      cases hp
    · exact Or.inr ⟨hpkt, hk, hnew⟩
  · exact Or.inl hold

/-- A call that fits keeps the buffer ready. -/
theorem Ready.step (h : Ready s) (hfiled : Filed s) {c : Call Numbered T} (hfits : Fits s c) :
    Ready (s.step timing c) := by
  cases c with
  | push now pkt =>
      refine ⟨h.increasing, fun r hr k q hq => ?_, fun k k' q q' hq hq' hlt => ?_⟩
      · rcases slot_of_push hfits hq with hold | ⟨rfl, -, hnewer, -⟩
        · exact h.newer r hr k q hold
        · exact hnewer r hr
      · rcases slot_of_push hfits hq with hold | ⟨rfl, hk, -, hplace⟩
        · rcases slot_of_push hfits hq' with hold' | ⟨rfl, hk', -, hplace⟩
          · exact h.sorted k k' q q' hold hold' hlt
          · exact (hplace k q hold).2 (hk' ▸ hlt)
        · rcases slot_of_push hfits hq' with hold' | ⟨rfl, hk', -⟩
          · -- the packet that waits is not older, and not as old, since its slot is another one
            have hge : ¬ q'.number < q.number := fun hlt' =>
              absurd ((hplace k' q' hold').1 hlt') (hk ▸ UInt16.lt_asymm hlt)
            have hne : q'.number ≠ q.number := by
              intro hsame
              apply UInt16.ne_of_lt hlt
              rw [hk, ← hfiled.filed k' q' hold', q'.sequence_ofInt, hsame, ← q.sequence_ofInt]
            omega
          · exact absurd (hk.trans hk'.symm) (UInt16.ne_of_lt hlt)
  | pop now =>
      rcases s.step_pop_cases timing now with hsame | ⟨seq, pkt, hslot, hmin, hstep⟩
      · rw [hsame]
        exact h
      · rw [hstep]
        refine ⟨?_, fun r hr k q hq => ?_, fun k k' q q' hq hq' hlt => ?_⟩
        · refine List.pairwise_append.2 ⟨h.increasing, List.pairwise_singleton _ _, ?_⟩
          intro r hr p hp
          obtain rfl := List.mem_singleton.1 hp
          exact h.newer r hr seq p hslot
        · obtain ⟨hne, hold⟩ := getElem?_erase_eq_some_iff.1 hq
          rcases List.mem_append.1 hr with hr | hr
          · exact h.newer r hr k q hold
          · obtain rfl := List.mem_singleton.1 hr
            exact h.sorted seq k r q hslot hold (hmin k q hold hne)
        · exact h.sorted k k' q q' (getElem?_erase_eq_some_iff.1 hq).2
            (getElem?_erase_eq_some_iff.1 hq').2 hlt

/-! ## An arrival that does not fit -/

/-- A packet that waits is not newer than one that was handed out, or two packets wait in the wrong
order, or the packets were handed out in the wrong order already. -/
def Doomed (s : Session Numbered T D) : Prop :=
  (∃ r ∈ s.released, ∃ (k : UInt16) (q : Numbered), s.buffer.buf[k]? = some q ∧
      q.number ≤ r.number) ∨
    (∃ (k k' : UInt16) (q q' : Numbered), s.buffer.buf[k]? = some q ∧
      s.buffer.buf[k']? = some q' ∧ k < k' ∧ q'.number ≤ q.number) ∨
    ¬ Increasing s

/-- An arrival leaves the packets that wait alone. -/
theorem slot_push {now : T} {pkt : Numbered} {k : UInt16} {q : Numbered}
    (hq : s.buffer.buf[k]? = some q) :
    (s.step timing (.push now pkt)).buffer.buf[k]? = some q :=
  (JitterBuffer.slot_push_iff timing).2 (Or.inr hq)

/-- A push that does not fit dooms the order. -/
theorem Doomed.of_push {now : T} {pkt : Numbered} (hnot : ¬ Fits s (.push now pkt)) :
    Doomed (s.step timing (.push now pkt)) := by
  rw [Fits, not_or, not_and_or] at hnot
  obtain ⟨hfree, hbad⟩ := hnot
  have hnone : s.buffer.buf[seqOf pkt]? = none :=
    Option.eq_none_iff_forall_ne_some.2 fun q hq => hfree ⟨q, hq⟩
  have hpkt : (s.step timing (.push now pkt)).buffer.buf[seqOf pkt]? = some pkt :=
    (JitterBuffer.slot_push_iff timing).2 (Or.inl ⟨rfl, hnone, rfl⟩)
  -- the packet waits now, not newer than one handed out or in the wrong place
  rcases hbad with hlate | hplace
  · push Not at hlate
    obtain ⟨r, hr, hle⟩ := hlate
    exact Or.inl ⟨r, hr, seqOf pkt, pkt, hpkt, hle⟩
  · push Not at hplace
    obtain ⟨k, q, hq, hdiff⟩ := hplace
    have hne : k ≠ seqOf pkt := by
      rintro rfl
      rw [hnone] at hq
      cases hq
    rcases hdiff with ⟨hlt, hge⟩ | ⟨hge, hlt⟩
    · exact Or.inr (Or.inl ⟨seqOf pkt, k, pkt, q, hpkt, slot_push hq,
        UInt16.lt_of_le_of_ne (UInt16.not_lt.1 hge) hne.symm, hlt.le⟩)
    · exact Or.inr (Or.inl ⟨k, seqOf pkt, q, pkt, slot_push hq, hpkt, hlt, hge⟩)

/-- Once doomed, the order is not saved by any call. -/
theorem Doomed.step (h : Doomed s) (c : Call Numbered T) : Doomed (s.step timing c) := by
  cases c with
  | push now pkt =>
      rcases h with ⟨r, hr, k, q, hq, hle⟩ | ⟨k, k', q, q', hq, hq', hlt, hle⟩ | hnot
      · exact Or.inl ⟨r, hr, k, q, slot_push hq, hle⟩
      · exact Or.inr (Or.inl ⟨k, k', q, q', slot_push hq, slot_push hq', hlt, hle⟩)
      · exact Or.inr (Or.inr hnot)
  | pop now =>
      rcases s.step_pop_cases timing now with hsame | ⟨seq, pkt, hslot, hmin, hstep⟩
      · rw [hsame]
        exact h
      rw [hstep]
      -- a packet that is not handed out stays in its slot
      have hstay : ∀ (k : UInt16) q, s.buffer.buf[k]? = some q → k ≠ seq →
          (s.buffer.buf.erase seq)[k]? = some q := by
        intro k q hq hne
        exact getElem?_erase_eq_some_iff.2 ⟨hne, hq⟩
      rcases h with ⟨r, hr, k, q, hq, hle⟩ | ⟨k, k', q, q', hq, hq', hlt, hle⟩ | hnot
      · rcases eq_or_ne k seq with rfl | hne
        · rw [hslot] at hq
          obtain rfl := Option.some.inj hq
          refine Or.inr (Or.inr fun hinc => ?_)
          have hlast := (List.pairwise_append.1 hinc).2.2 r hr pkt (List.mem_singleton_self pkt)
          omega
        · exact Or.inl ⟨r, List.mem_append_left _ hr, k, q, hstay k q hq hne, hle⟩
      · -- the smaller slot is emptied first
        have hne' : k' ≠ seq := by
          rintro rfl
          exact UInt16.lt_asymm hlt (hmin k q hq (UInt16.ne_of_lt hlt))
        rcases eq_or_ne k seq with rfl | hne
        · rw [hslot] at hq
          obtain rfl := Option.some.inj hq
          exact Or.inl ⟨pkt, by simp, k', q', hstay k' q' hq' hne', hle⟩
        · exact Or.inr (Or.inl ⟨k, k', q, q', hstay k q hq hne, hstay k' q' hq' hne', hlt, hle⟩)
      · refine Or.inr (Or.inr fun hinc => hnot ?_)
        exact (List.pairwise_append.1 hinc).1

theorem Doomed.run (h : Doomed s) (calls : List (Call Numbered T)) :
    Doomed (run (Session.step timing) s calls) := by
  induction calls generalizing s with
  | nil => exact h
  | cons c calls ih => exact ih (h.step c)

/-- Every wait is long enough some time. -/
def Waits (timing : Timing T D) : Prop :=
  ∀ target smoothed last, ∃ now,
    timing.longEnough target smoothed (timing.elapsed now last) = true

/-- Calls of `pop` at the right times empty the buffer. -/
theorem exists_drain (hwaits : Waits timing) (n : ℕ) (hfiled : Filed s)
    (hsize : s.buffer.buf.size ≤ n) :
    ∃ times : List T, ∀ k : UInt16,
      (run (Session.step timing) s (times.map .pop)).buffer.buf[k]? = none := by
  induction n generalizing s with
  | zero =>
      refine ⟨[], fun k => Option.eq_none_iff_forall_ne_some.2 fun q hq => ?_⟩
      have hlt : (s.buffer.buf.erase k).size < s.buffer.buf.size := size_erase_lt hq
      omega
  | succ n ih =>
      by_cases hempty : ∀ k : UInt16, s.buffer.buf[k]? = none
      · exact ⟨[], hempty⟩
      · push Not at hempty
        obtain ⟨k, hk⟩ := hempty
        obtain ⟨q, hq⟩ := Option.ne_none_iff_exists'.1 hk
        have hstarted : s.buffer.started = true := by
          rw [← Bool.not_eq_false]
          exact fun hidle => hk (hfiled.idle hidle k)
        -- after a long enough wait one more packet comes out
        obtain ⟨now, hdue⟩ := hwaits s.buffer.targetDelayMs s.buffer.smoothedJitterMs
          s.buffer.lastArrival
        have hlt := JitterBuffer.pop_size_lt timing hstarted hdue hq
        obtain ⟨times, htimes⟩ := ih (s := s.step timing (.pop now)) (hfiled.step (.pop now)) (by
          change (s.buffer.pop timing now).2.buf.size ≤ n
          omega)
        exact ⟨now :: times, htimes⟩

end Steps

/-- Where every arrival fits, the packets are handed out in strictly increasing order. Where one
does not, they are not, if the run goes on until the buffer is empty. -/
theorem released_increasing (timing : Timing T D) (target : Int32)
    (calls : List (Call Numbered T)) :
    (Along (Session.step timing) Fits (.init timing target) calls →
      Increasing (run (Session.step timing) (.init timing target) calls)) ∧
    (Waits timing → ¬ Along (Session.step timing) Fits (.init timing target) calls →
      ∃ times : List T, ¬ Increasing
        (run (Session.step timing) (.init timing target) (calls ++ times.map .pop))) := by
  constructor
  · intro hfits
    have hinv : ∀ (s : Session Numbered T D) c, Filed s ∧ Ready s → Fits s c →
        Filed (s.step timing c) ∧ Ready (s.step timing c) := fun s c h hc =>
      ⟨h.1.step c, h.2.step h.1 hc⟩
    exact (inv_run hinv ⟨Filed.init target, Ready.init target⟩ hfits).2.increasing
  · intro hwaits hnot
    rw [along_iff_split] at hnot
    push Not at hnot
    -- an arrival that does not fit
    obtain ⟨pre, c, post, rfl, hc⟩ := hnot
    have hdoomed : Doomed (run (Session.step timing) (.init timing target) (pre ++ c :: post)) := by
      cases c with
      | push now pkt =>
          rw [run_append, run_cons]
          exact (Doomed.of_push hc).run post
      | pop now => exact absurd trivial hc
    have hfiled : Filed (run (Session.step timing) (.init timing target) (pre ++ c :: post)) :=
      inv_run (I := Filed) (P := fun _ _ => True) (fun s c h _ => Filed.step h c)
        (Filed.init target) (along_of_forall (fun _ _ => trivial) _ _)
    obtain ⟨times, htimes⟩ := exists_drain hwaits _ hfiled le_rfl
    refine ⟨times, ?_⟩
    rw [run_append]
    -- nothing waits any more, so what was handed out is in the wrong order
    rcases hdoomed.run (times.map .pop) with ⟨r, -, k, q, hq, -⟩ | ⟨k, -, q, -, hq, -⟩ | hwrong
    · rw [htimes] at hq
      cases hq
    · rw [htimes] at hq
      cases hq
    · exact hwrong

/-- Exact arithmetic, with a clock that counts milliseconds. -/
def exactTiming : Timing ℤ ℚ where
  epoch := 0
  zero := 0
  elapsed now last := now - last
  smooth smoothed delta := smoothed + (|delta - 20| - smoothed) / 16
  longEnough target smoothed elapsed :=
    elapsed ≥ target.toInt + (smoothed * 2).num.tdiv (smoothed * 2).den

/-- The clock only has to reach the end of the wait. -/
theorem exactTiming_waits : Waits exactTiming := by
  intro target smoothed last
  refine ⟨last + (target.toInt + (smoothed * 2).num.tdiv (smoothed * 2).den), ?_⟩
  apply decide_eq_true
  simp only [exactTiming]
  push_cast
  exact (add_sub_cancel_left _ _).ge

/-- Packet 0 arrives and is handed out. -/
def onePacket : List (Call Numbered ℤ) := [.push 0 (.ofNumber 0), .pop 100]

/-- Packet 0 arrives, is handed out, arrives again and is handed out again. -/
def repeatedPacket : List (Call Numbered ℤ) :=
  [.push 0 (.ofNumber 0), .pop 100, .push 100 (.ofNumber 0), .pop 210]

/-- The repetition finds its slot free and is not newer than packet 0. -/
theorem not_fits_repeatedPacket :
    ¬ Along (Session.step exactTiming) Fits (.init exactTiming 100) repeatedPacket := by
  rintro ⟨-, -, hfits, -⟩
  rcases hfits with ⟨q, hq⟩ | ⟨hnewer, -⟩
  · have hnone : ((run (Session.step exactTiming) (.init exactTiming 100)
        onePacket).buffer.buf[seqOf (Numbered.ofNumber 0)]?).isNone := by
      decide +kernel
    change (run (Session.step exactTiming) (.init exactTiming 100) onePacket).buffer.buf[_]? = _
      at hq
    rw [hq] at hnone
    cases hnone
  · have hreleased : 0 ∈ ((run (Session.step exactTiming) (.init exactTiming 100)
        onePacket).released.map Numbered.number) := by
      decide +kernel
    obtain ⟨r, hr, hzero⟩ := List.mem_map.1 hreleased
    have hlt := hnewer r hr
    rw [hzero] at hlt
    exact absurd hlt (lt_irrefl 0)

theorem released_increasing_repeatedPacket :
    Increasing (run (Session.step exactTiming) (.init exactTiming 100) onePacket) ∧
      ∃ times : List ℤ, ¬ Increasing
        (run (Session.step exactTiming) (.init exactTiming 100)
          (repeatedPacket ++ times.map .pop)) := by
  constructor
  · apply (released_increasing exactTiming 100 onePacket).1
    refine ⟨Or.inr ⟨?_, ?_⟩, trivial, trivial⟩
    · intro r hr
      exact absurd hr List.not_mem_nil
    · intro k q hq
      have hfiled : Filed (Session.init exactTiming 100) := Filed.init 100
      rw [hfiled.idle rfl k] at hq
      cases hq
  · exact (released_increasing exactTiming 100 repeatedPacket).2 exactTiming_waits
      not_fits_repeatedPacket

/-- Arrivals within 2^14 of the highest number handed out, or of the first one pushed. -/
def InWindow (first : ℤ) (s : Session Numbered T D) : Call Numbered T → Prop
  | .push _ pkt =>
      |pkt.number - (s.released.map Numbered.number).max?.getD first| ≤ 16384
  | .pop _ => True

theorem not_increasing_repeatedPacket :
    Along (Session.step exactTiming) (InWindow 0) (.init exactTiming 100) repeatedPacket ∧
      ¬ Increasing (run (Session.step exactTiming) (.init exactTiming 100) repeatedPacket) := by
  constructor
  · refine ⟨?_, trivial, ?_, trivial, trivial⟩
    · show |(0 : ℤ) - _| ≤ 16384
      decide +kernel
    · show |(0 : ℤ) - _| ≤ 16384
      decide +kernel
  · intro hinc
    have hreleased : ((run (Session.step exactTiming) (.init exactTiming 100)
        repeatedPacket).released.map Numbered.number) = [0, 0] := by
      decide +kernel
    have hmap := List.Pairwise.map Numbered.number (fun _ _ h => h) hinc
    rw [hreleased] at hmap
    revert hmap
    decide

end CppMeet.Weak.ReleaseOrder
