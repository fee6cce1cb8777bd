import CppMeet.Lib.Serial
import CppMeet.Lib.SortedMap
import CppMeet.Rtp.Packet
import Mathlib.Data.Finset.Insert

/-!
# The NACK manager

`NackManager` records the sequence numbers that a new maximum skips, with a reading of the steady
clock in nanoseconds, and drops a number when it arrives. `getNackList` reports the numbers recorded
at least 100 ms ago. `missing_onReceive` says what a call does to the record.
-/

set_option autoImplicit false

namespace CppMeet.Weak.Nack

open CppMeet.Lib.Serial CppMeet.Lib.SortedMap CppMeet.Rtp.Packet

/-- The numbers received, the newest one, and the missing ones with the time each was first
missed. -/
structure NackManager where
  received : Finset UInt16 := ∅
  maxSeen : UInt16 := 0
  started : Bool := false
  missing : Std.TreeMap UInt16 ℤ := ∅

namespace NackManager

/-- The loop over the numbers that the new maximum skips; `clock s` is the time read for `s`. -/
def recordGap (received : Finset UInt16) (clock : UInt16 → ℤ)
    (missing : Std.TreeMap UInt16 ℤ) (skipped : List UInt16) : Std.TreeMap UInt16 ℤ :=
  skipped.foldl (fun missing s => if s ∈ received then missing else missing.insert s (clock s))
    missing

/-- A number that is newer than all others makes those in between missing; one that comes is not
missing any more. -/
def onReceive (m : NackManager) (seq : UInt16) (clock : UInt16 → ℤ) : NackManager :=
  let received := insert seq m.received
  if m.started then
    let newMax := RtpPacket.seqGt seq m.maxSeen
    let missing :=
      if newMax then recordGap received clock m.missing (between m.maxSeen seq) else m.missing
    { received := received
      maxSeen := if newMax then seq else m.maxSeen
      started := true
      -- a number that was thought missing has arrived
      missing := missing.erase seq }
  else { m with received := received, maxSeen := seq, started := true }

/-- How long a number is missing before it is reported. -/
def nackTimeoutMs : ℤ := 100

/-- `duration_cast<milliseconds>` of a difference of two readings. -/
def elapsedMs (now firstSeen : ℤ) : ℤ := (now - firstSeen).tdiv 1000000

/-- The numbers that have been missing for that long, in increasing order. -/
def getNackList (m : NackManager) (now : ℤ) : List UInt16 :=
  m.missing.toList.filterMap fun (seq, firstSeen) =>
    if elapsedMs now firstSeen ≥ nackTimeoutMs then some seq else none

/-! ## What a call does -/

/-- What is recorded is skipped and was not received. -/
theorem getElem?_recordGap (received : Finset UInt16) (clock : UInt16 → ℤ)
    (missing : Std.TreeMap UInt16 ℤ) (skipped : List UInt16) (k : UInt16) :
    (recordGap received clock missing skipped)[k]? =
      if k ∈ skipped ∧ k ∉ received then some (clock k) else missing[k]? := by
  induction skipped generalizing missing with
  | nil => simp [recordGap]
  | cons s skipped ih =>
      have hrec : recordGap received clock missing (s :: skipped) = recordGap received clock
          (if s ∈ received then missing else missing.insert s (clock s)) skipped := rfl
      have hfirst : (if s ∈ received then missing else missing.insert s (clock s))[k]? =
          if k = s ∧ k ∉ received then some (clock k) else missing[k]? := by
        by_cases hs : s ∈ received
        · rw [if_pos hs, if_neg]
          rintro ⟨rfl, hk⟩
          exact hk hs
        · rw [if_neg hs, getElem?_insert_ite]
          -- the turn for `k` itself writes its entry, any other turn leaves it
          by_cases hks : k = s
          · subst hks
            rw [if_pos rfl, if_pos ⟨rfl, hs⟩]
          · rw [if_neg hks, if_neg fun h => hks h.1]
      rw [hrec, ih, hfirst]
      by_cases hmem : k ∈ skipped ∧ k ∉ received
      · rw [if_pos hmem, if_pos ⟨List.mem_cons_of_mem s hmem.1, hmem.2⟩]
      · rw [if_neg hmem]
        refine if_congr ?_ rfl rfl
        rw [List.mem_cons]
        tauto

/-- The record after a call of a manager that has started. -/
theorem missing_onReceive {m : NackManager} (hstarted : m.started = true) (seq : UInt16)
    (clock : UInt16 → ℤ) (k : UInt16) :
    (m.onReceive seq clock).missing[k]? =
      if k = seq then none
      else if RtpPacket.seqGt seq m.maxSeen = true ∧ k ∈ between m.maxSeen seq ∧
        k ∉ insert seq m.received then some (clock k)
      else m.missing[k]? := by
  simp only [onReceive, hstarted, if_true]
  rw [getElem?_erase_ite]
  by_cases hk : k = seq
  · rw [if_pos hk, if_pos hk]
  · rw [if_neg hk, if_neg hk]
    by_cases hnew : RtpPacket.seqGt seq m.maxSeen = true
    · rw [if_pos hnew, getElem?_recordGap]
      simp only [hnew, true_and]
    · rw [if_neg hnew, if_neg fun h => hnew h.1]

theorem received_onReceive (m : NackManager) (seq : UInt16) (clock : UInt16 → ℤ) :
    (m.onReceive seq clock).received = insert seq m.received := by
  unfold onReceive
  dsimp only
  split_ifs <;> rfl

theorem started_onReceive (m : NackManager) (seq : UInt16) (clock : UInt16 → ℤ) :
    (m.onReceive seq clock).started = true := by
  unfold onReceive
  dsimp only
  split_ifs <;> rfl

theorem maxSeen_onReceive (m : NackManager) (seq : UInt16) (clock : UInt16 → ℤ) :
    (m.onReceive seq clock).maxSeen =
      if m.started = true → RtpPacket.seqGt seq m.maxSeen = true then seq else m.maxSeen := by
  unfold onReceive
  cases hstarted : m.started with
  | true => simp
  | false => simp

/-- A number is reported when it has been missing for 100 ms. -/
theorem timeout_iff (now firstSeen : ℤ) :
    elapsedMs now firstSeen ≥ nackTimeoutMs ↔ firstSeen + 100000000 ≤ now := by
  rw [elapsedMs, nackTimeoutMs]
  by_cases h : firstSeen ≤ now
  · rw [Int.tdiv_eq_ediv_of_nonneg (by omega)]
    omega
  · rw [show now - firstSeen = -(firstSeen - now) by omega, Int.neg_tdiv,
      Int.tdiv_eq_ediv_of_nonneg (by omega)]
    omega

/-- The numbers reported are those recorded at least 100 ms ago. -/
theorem mem_getNackList {m : NackManager} {now : ℤ} {k : UInt16} :
    k ∈ m.getNackList now ↔ ∃ t, m.missing[k]? = some t ∧ t + 100000000 ≤ now := by
  rw [getNackList, List.mem_filterMap]
  constructor
  · rintro ⟨⟨seq, t⟩, hmem, h⟩
    dsimp only at h
    split_ifs at h with ht
    obtain rfl := Option.some.inj h
    exact ⟨t, Std.TreeMap.mem_toList_iff_getElem?_eq_some.1 hmem, (timeout_iff now t).1 ht⟩
  · rintro ⟨t, hk, ht⟩
    refine ⟨(k, t), Std.TreeMap.mem_toList_iff_getElem?_eq_some.2 hk, ?_⟩
    dsimp only
    rw [if_pos ((timeout_iff now t).2 ht)]

/-- They are reported in increasing order. -/
theorem pairwise_getNackList (m : NackManager) (now : ℤ) :
    (m.getNackList now).Pairwise (· < ·) := by
  rw [getNackList, List.pairwise_filterMap]
  refine Std.TreeMap.ordered_keys_toList.imp ?_
  rintro ⟨k, t⟩ ⟨k', t'⟩ hlt s hs s' hs'
  dsimp only at hs hs'
  split_ifs at hs hs'
  obtain rfl := Option.some.inj hs
  obtain rfl := Option.some.inj hs'
  exact Std.compare_eq_lt.1 hlt

end NackManager

end CppMeet.Weak.Nack
