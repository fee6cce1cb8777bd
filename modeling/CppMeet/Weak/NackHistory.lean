import CppMeet.Lib.Run
import CppMeet.Weak.Nack

/-!
# Every number in a NACK was skipped

The record of the manager against the history of its calls, for arrivals of any numbers in any
order. An entry goes back to the last call that skipped its number (`Inv.last_skip`): a call that
skips the number again writes the entry anew, because the number has not been received, and the call
that receives it removes the entry.
-/

set_option autoImplicit false

namespace CppMeet.Weak.NackHistory

open CppMeet.Lib.Run CppMeet.Lib.Serial CppMeet.Rtp.Packet CppMeet.Weak.Nack

/-- The calls of the manager. `clock s` is the time that `on_receive` reads when it records `s`. -/
inductive Call where
  | onReceive (seq : UInt16) (clock : UInt16 → ℤ)
  | getNackList (now : ℤ)

/-- `get_nack_list` only reads. -/
def step (m : NackManager) : Call → NackManager
  | .onReceive seq clock => m.onReceive seq clock
  | .getNackList _ => m

/-- `k` comes after `prev` and before `seq`, counted upwards from `prev`. -/
def StrictlyBetween (prev k seq : UInt16) : Prop :=
  0 < (k - prev).toNat ∧ (k - prev).toNat < (seq - prev).toNat

/-- The call makes its number the maximum and skips `k`. -/
def Skips (k : UInt16) (m : NackManager) : Call → Prop
  | .onReceive seq _ =>
      m.started = true ∧ RtpPacket.seqGt seq m.maxSeen = true ∧ StrictlyBetween m.maxSeen k seq
  | .getNackList _ => False

/-- The call receives `k`. -/
def Receives (k : UInt16) : Call → Prop
  | .onReceive seq _ => seq = k
  | .getNackList _ => False

/-- The call skips `k` at time `t` and does not receive it. -/
def SkipsAt (k : UInt16) (t : ℤ) (m : NackManager) (c : Call) : Prop :=
  Skips k m c ∧ ¬ Receives k c ∧ ∃ seq clock, c = .onReceive seq clock ∧ clock k = t

/-- The call neither skips nor receives `k`. -/
def Spares (k : UInt16) (m : NackManager) (c : Call) : Prop := ¬ Skips k m c ∧ ¬ Receives k c

/-- What the record says about the calls so far. -/
structure Inv (calls : List Call) (m : NackManager) : Prop where
  idle : m.started = false → ∀ k : UInt16, m.missing[k]? = none
  last_skip : ∀ (k : UInt16) t, m.missing[k]? = some t →
    k ∉ m.received ∧ Since step (SkipsAt k t) (Spares k) {} calls

/-! ## One call -/

/-- The numbers that the loop runs through are those strictly between. -/
theorem skips_iff {m : NackManager} (hstarted : m.started = true) {seq k : UInt16}
    (clock : UInt16 → ℤ) :
    Skips k m (.onReceive seq clock) ↔
      RtpPacket.seqGt seq m.maxSeen = true ∧ k ∈ between m.maxSeen seq := by
  rw [Skips, and_iff_right hstarted]
  refine and_congr_right fun hnew => (mem_between_iff ?_ k).symm
  rintro rfl
  simp [RtpPacket.seqGt] at hnew

theorem missing_init (k : UInt16) : ({} : NackManager).missing[k]? = none :=
  Std.TreeMap.getElem?_emptyc

theorem Inv.init : Inv [] {} where
  idle _ := missing_init
  last_skip k t hk := by
    rw [missing_init k] at hk
    cases hk

/-- A received number, and what becomes missing by it. -/
theorem Inv.onReceive {calls : List Call} (h : Inv calls (run step {} calls)) (seq : UInt16)
    (clock : UInt16 → ℤ) :
    Inv (calls ++ [.onReceive seq clock]) (step (run step {} calls) (.onReceive seq clock)) where
  idle hidle := absurd ((NackManager.started_onReceive _ _ _).symm.trans hidle) (by decide)
  last_skip k t hk := by
    rw [since_concat, step, NackManager.received_onReceive, Finset.mem_insert]
    cases hstarted : (run step {} calls).started with
    | false =>
        -- the first call leaves the record empty
        simp only [step, NackManager.onReceive, hstarted, Bool.false_eq_true, if_false] at hk
        rw [h.idle hstarted k] at hk
        cases hk
    | true =>
        rw [step, NackManager.missing_onReceive hstarted] at hk
        split_ifs at hk with hseq hskip
        · -- recorded by this call
          have hreceived := mt Finset.mem_insert.2 hskip.2.2
          obtain rfl := Option.some.inj hk
          refine ⟨hreceived, Or.inl ⟨?_, Ne.symm hseq, seq, clock, rfl, rfl⟩⟩
          exact (skips_iff hstarted clock).2 ⟨hskip.1, hskip.2.1⟩
        · -- recorded earlier
          obtain ⟨hold, hsince⟩ := h.last_skip k t hk
          have hnot : k ∉ insert seq (run step {} calls).received := by
            rw [Finset.mem_insert, not_or]
            exact ⟨hseq, hold⟩
          refine ⟨mt Finset.mem_insert.2 hnot, Or.inr ⟨hsince, fun hagain => ?_, Ne.symm hseq⟩⟩
          obtain ⟨hnew, hmem⟩ := (skips_iff hstarted clock).1 hagain
          exact hskip ⟨hnew, hmem, hnot⟩

theorem Inv.getNackList {calls : List Call} {m : NackManager} (h : Inv calls m) (now : ℤ) :
    Inv (calls ++ [.getNackList now]) m where
  idle := h.idle
  last_skip k t hk := by
    obtain ⟨hold, hsince⟩ := h.last_skip k t hk
    exact ⟨hold, (since_concat _ _ _).2 (Or.inr ⟨hsince, fun hskip => hskip, fun hrec => hrec⟩)⟩

/-! ## All calls -/

end CppMeet.Weak.NackHistory
