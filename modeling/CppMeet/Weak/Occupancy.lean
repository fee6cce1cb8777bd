import CppMeet.Weak.ReleaseOrder

/-!
# What the adaptive jitter buffer holds

`push` drops a packet whose number is taken, and `pop` hands out one packet at most, so nothing gets
lost in between: in every run, whatever the timing, the packets that were filed are those handed
out and those that wait. As `pop` does not wait for its time once more than 10 packets are there,
what waits is bounded by the pushes that no pop has made up for, and pops that are late enough empty
the buffer (`buffer_accounts`).
-/

set_option autoImplicit false

namespace CppMeet.Weak.Occupancy

open CppMeet.Lib.Run CppMeet.Lib.SortedMap CppMeet.Rtp.Packet CppMeet.Weak.AdaptiveBuffer
open CppMeet.Weak.ReleaseOrder

universe u v w

variable {P : Type u} {T : Type v} {D : Type w} [Sequenced P] (timing : Timing T D)

/-- The packets in the buffer. -/
def waiting (m : JitterBuffer P T D) : List P := m.buf.toList.map Prod.snd

/-- What a call files: a packet whose number is free. -/
def filed (s : Session P T D) : Call P T → List P
  | .push _ pkt => if s.buffer.buf[seqOf pkt]? = none then [pkt] else []
  | .pop _ => []

/-- The pushes that no pop has made up for. -/
def debtStep (debt : ℕ) : Call P T → ℕ
  | .push _ _ => debt + 1
  | .pop _ => debt - 1

/-- The time has come for the next packet. -/
def Due (m : JitterBuffer P T D) (now : T) : Prop :=
  timing.longEnough m.targetDelayMs m.smoothedJitterMs (timing.elapsed now m.lastArrival) = true

/-! ## Single calls -/

section Calls

variable {m : JitterBuffer P T D} {now : T}

omit [Sequenced P] in
/-- The waiting packets are those in the buffer. -/
theorem length_waiting (m : JitterBuffer P T D) : (waiting m).length = m.buf.size := by
  rw [waiting, List.length_map, Std.TreeMap.length_toList]

/-- A packet that is pushed waits, unless its slot is taken. -/
theorem waiting_push_perm (m : JitterBuffer P T D) (now : T) (pkt : P) :
    (waiting (m.push timing now pkt)).Perm
      ((if m.buf[seqOf pkt]? = none then [pkt] else []) ++ waiting m) := by
  split_ifs with hfree
  · exact (toList_insertIfNew_perm hfree pkt).map Prod.snd
  · exact (toList_insertIfNew_perm_self hfree pkt).map Prod.snd

omit [Sequenced P] in
/-- The packet that is handed out was waiting. -/
theorem waiting_pop_perm (m : JitterBuffer P T D) (now : T) :
    (waiting m).Perm ((m.pop timing now).1.toList ++ waiting (m.pop timing now).2) := by
  rcases m.pop_cases timing now with hnone | ⟨seq, pkt, hslot, -, hsome⟩
  · rw [hnone]
    exact List.Perm.refl _
  · rw [hsome]
    exact (toList_erase_perm hslot).map Prod.snd

omit [Sequenced P] in
/-- A packet is handed out when its time has come, and when more than 10 are there. -/
theorem isSome_pop (hstarted : m.started = true) (hne : waiting m ≠ [])
    (hdue : Due timing m now ∨ 10 < m.buf.size) : (m.pop timing now).1.isSome = true := by
  have hfull : m.buf.isEmpty = false := by
    cases hempty : m.buf.isEmpty with
    | false => rfl
    | true =>
        rw [← Std.TreeMap.isEmpty_toList, List.isEmpty_iff] at hempty
        exact absurd (congrArg (List.map Prod.snd) hempty) hne
  have hdue' : (timing.longEnough m.targetDelayMs m.smoothedJitterMs
      (timing.elapsed now m.lastArrival) || decide (m.buf.size > 10)) = true := by
    rw [Bool.or_eq_true, decide_eq_true_iff]
    exact hdue
  rw [JitterBuffer.pop, hfull, if_neg Bool.false_ne_true, hstarted, if_neg (by decide),
    if_pos hdue']
  cases hlist : m.buf.toList with
  | nil => exact absurd (congrArg (List.map Prod.snd) hlist) hne
  | cons entry rest => rfl

omit [Sequenced P] in
/-- What is released is not in the buffer any more. -/
theorem size_pop (m : JitterBuffer P T D) (now : T) :
    m.buf.size = (m.pop timing now).1.toList.length + (m.pop timing now).2.buf.size := by
  have hlength := (waiting_pop_perm timing m now).length_eq
  rwa [List.length_append, length_waiting, length_waiting] at hlength

omit [Sequenced P] in
/-- `pop` changes `buf_` at most. -/
theorem pop_fields (m : JitterBuffer P T D) (now : T) :
    ∃ buf, (m.pop timing now).2 = { m with buf := buf } := by
  rcases m.pop_cases timing now with hnone | ⟨seq, pkt, -, -, hsome⟩
  · rw [hnone]
    exact ⟨m.buf, rfl⟩
  · rw [hsome]
    exact ⟨_, rfl⟩

omit [Sequenced P] in
/-- A buffer that holds a packet has been started. -/
theorem started_pop (hstarted : waiting m ≠ [] → m.started = true) (now : T)
    (hne : waiting (m.pop timing now).2 ≠ []) : (m.pop timing now).2.started = true := by
  obtain ⟨buf, hbuf⟩ := pop_fields timing m now
  have hwaiting := waiting_pop_perm timing m now
  rw [hbuf]
  apply hstarted
  intro hempty
  rw [hempty] at hwaiting
  exact hne (List.append_eq_nil_iff.1 hwaiting.nil_eq.symm).2

end Calls

/-! ## Runs -/

/-- The invariant, with the packets filed so far and the pushes not made up for. -/
structure Accounts (s : Session P T D) (filed : List P) (debt : ℕ) : Prop where
  perm : filed.Perm (s.released ++ waiting s.buffer)
  size : s.buffer.buf.size ≤ 10 + debt
  started : waiting s.buffer ≠ [] → s.buffer.started = true

omit [Sequenced P] in
theorem accounts_init (target : Int32) :
    Accounts (Session.init timing target : Session P T D) [] 0 where
  perm := List.Perm.refl _
  size := Nat.zero_le _
  started h := absurd rfl h

theorem accounts_push {s : Session P T D} {l : List P} {debt : ℕ} (h : Accounts s l debt) (now : T)
    (pkt : P) :
    Accounts (s.step timing (.push now pkt)) (l ++ filed s (.push now pkt))
      (debtStep debt (.push now pkt : Call P T)) where
  perm := by
    have hwaiting := waiting_push_perm timing s.buffer now pkt
    have hfiled := h.perm.append_right (filed s (.push now pkt))
    rw [List.append_assoc] at hfiled
    have hswap : (waiting s.buffer ++ filed s (.push now pkt)).Perm
        (filed s (.push now pkt) ++ waiting s.buffer) := List.perm_append_comm
    exact hfiled.trans ((hswap.trans hwaiting.symm).append_left s.released)
  size := by
    have hsize : (s.buffer.buf.insertIfNew (seqOf pkt) pkt).size ≤ s.buffer.buf.size + 1 :=
      Std.TreeMap.size_insertIfNew_le
    have hbound := h.size
    change (s.buffer.buf.insertIfNew (seqOf pkt) pkt).size ≤ 10 + (debt + 1)
    omega
  started _ := rfl

theorem step_pop (s : Session P T D) (now : T) :
    s.step timing (.pop now) =
      { buffer := (s.buffer.pop timing now).2
        released := s.released ++ (s.buffer.pop timing now).1.toList } := rfl

theorem accounts_pop {s : Session P T D} {l : List P} {debt : ℕ} (h : Accounts s l debt) (now : T) :
    Accounts (s.step timing (.pop now)) (l ++ filed s (.pop now))
      (debtStep debt (.pop now : Call P T)) where
  perm := by
    have hwaiting := waiting_pop_perm timing s.buffer now
    rw [filed, List.append_nil, step_pop, List.append_assoc]
    exact h.perm.trans (hwaiting.append_left _)
  size := by
    have hsize := size_pop timing s.buffer now
    have hbound := h.size
    change (s.buffer.pop timing now).2.buf.size ≤ 10 + (debt - 1)
    by_cases hmany : 10 < s.buffer.buf.size
    · -- the buffer is too full to wait
      have hne : waiting s.buffer ≠ [] := by
        rw [← List.length_pos_iff, length_waiting]
        omega
      have hout : (s.buffer.pop timing now).1.isSome = true :=
        isSome_pop timing (h.started hne) hne (Or.inr hmany)
      rw [Option.length_toList, hout, if_pos rfl] at hsize
      omega
    · omega
  started := started_pop timing h.started now

theorem accounts_run {s : Session P T D} {l : List P} {debt : ℕ} (h : Accounts s l debt)
    (calls : List (Call P T)) :
    Accounts (run (Session.step timing) s calls) (l ++ trace (Session.step timing) filed s calls)
      (run debtStep debt calls) := by
  induction calls generalizing s l debt with
  | nil =>
      rw [trace, List.append_nil]
      exact h
  | cons c calls ih =>
      rw [run_cons, run_cons, trace, ← List.append_assoc]
      apply ih
      cases c with
      | push now pkt => exact accounts_push timing h now pkt
      | pop now => exact accounts_pop timing h now

theorem filed_pops (s : Session P T D) (times : List T) :
    trace (Session.step timing) filed s (times.map .pop) = [] := by
  induction times generalizing s with
  | nil => rfl
  | cons now times ih =>
      rw [List.map_cons, trace, ih]
      rfl

/-- Each pop that is late enough takes a packet out, as long as there is one. -/
theorem size_run_pop {s : Session P T D} {times : List T}
    (hstarted : waiting s.buffer ≠ [] → s.buffer.started = true)
    (hdue : ∀ now ∈ times, Due timing s.buffer now) :
    (run (Session.step timing) s (times.map .pop)).buffer.buf.size =
      s.buffer.buf.size - times.length := by
  induction times generalizing s with
  | nil => rfl
  | cons now times ih =>
      obtain ⟨hnow, htimes⟩ := List.forall_mem_cons.1 hdue
      obtain ⟨buf, hbuf⟩ := pop_fields timing s.buffer now
      have hsize := size_pop timing s.buffer now
      have hrest := ih (s := s.step timing (.pop now)) (started_pop timing hstarted now)
        fun later hlater => ?_
      · rw [List.map_cons, run_cons, hrest, List.length_cons]
        change (s.buffer.pop timing now).2.buf.size - times.length = _
        -- a pop of an empty buffer changes nothing, and another one takes a packet
        by_cases hne : waiting s.buffer = []
        · have hzero : s.buffer.buf.size = 0 := by rw [← length_waiting, hne, List.length_nil]
          omega
        · have hout := isSome_pop timing (hstarted hne) hne (Or.inl hnow)
          rw [Option.length_toList, hout, if_pos rfl] at hsize
          omega
      · change Due timing (s.buffer.pop timing now).2 later
        rw [hbuf]
        exact htimes later hlater

/-- In every run, with whatever timing, the packets that a push found a free number for are those
handed out and those in the buffer; the buffer holds at most 10 packets and one for each push that
no pop has made up for; and as many late pops as packets wait hand out all of them. -/
theorem buffer_accounts (timing : Timing T D) (target : Int32) (calls : List (Call P T)) :
    let s := run (Session.step timing) (Session.init timing target) calls
    let accepted := trace (Session.step timing) filed (Session.init timing target) calls
    accepted.Perm (s.released ++ waiting s.buffer) ∧
      s.buffer.buf.size ≤ 10 + run debtStep 0 calls ∧
      ∀ times : List T, s.buffer.buf.size ≤ times.length →
        (∀ now ∈ times, Due timing s.buffer now) →
          accepted.Perm (run (Session.step timing) s (times.map .pop)).released := by
  intro s accepted
  have haccounts : Accounts s accepted (run debtStep 0 calls) :=
    accounts_run timing (accounts_init timing target) calls
  refine ⟨haccounts.perm, haccounts.size, fun times henough hdue => ?_⟩
  have hsize := size_run_pop timing haccounts.started hdue
  have hall := accounts_run timing haccounts (times.map .pop)
  rw [filed_pops, List.append_nil] at hall
  have hempty : waiting (run (Session.step timing) s (times.map .pop)).buffer = [] := by
    rw [← List.length_eq_zero_iff, length_waiting, hsize]
    omega
  have hperm := hall.perm
  rwa [hempty, List.append_nil] at hperm

/-- Two packets in the wrong order, one of them twice. -/
def threePushes : List (Call Numbered ℤ) :=
  [.push 0 (.ofNumber 1), .push 10 (.ofNumber 0), .push 20 (.ofNumber 1)]

theorem buffer_accounts_threePushes :
    (trace (Session.step exactTiming) filed (Session.init exactTiming 100) threePushes).Perm
      (run (Session.step exactTiming)
        (run (Session.step exactTiming) (Session.init exactTiming 100) threePushes)
        ([500, 510].map .pop)).released := by
  apply (buffer_accounts exactTiming 100 threePushes).2.2
  · decide +kernel
  · have hdue : ∀ now ∈ [(500 : ℤ), 510], exactTiming.longEnough 100
        (run (Session.step exactTiming) (Session.init exactTiming 100)
          threePushes).buffer.smoothedJitterMs
        (exactTiming.elapsed now (run (Session.step exactTiming) (Session.init exactTiming 100)
          threePushes).buffer.lastArrival) = true := by
      decide +kernel
    exact hdue

end CppMeet.Weak.Occupancy
