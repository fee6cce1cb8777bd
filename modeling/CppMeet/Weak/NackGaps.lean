import CppMeet.Lib.Run
import CppMeet.Weak.Nack
import Mathlib.Data.Finset.Image

/-!
# Gaps over many cycles

Every arrival has an unbounded number, of which the manager sees the residue modulo 2^16. A
`Receiver` keeps beside the manager what the unbounded numbers say: the highest one, those that have
arrived, and those that were skipped and have not arrived since, with the time of the gap.

`Reported` says that all of the latter are in the record and are reported after 100 ms. The manager
never forgets a number that it has received, so it does not record a number whose residue came up in
an earlier cycle. `Fresh` is the exact condition on an arrival (`recorded_step_iff`), and
`reported_along_iff` carries it to whole runs.
-/

set_option autoImplicit false

namespace CppMeet.Weak.NackGaps

open CppMeet.Lib.Run CppMeet.Lib.Serial CppMeet.Rtp.Packet CppMeet.Weak.Nack

/-- A call of `on_receive`: the number of the packet and the clock read by the call. -/
structure Arrival where
  number : ℤ
  clock : UInt16 → ℤ

/-- The manager, and the history of the whole stream over unbounded numbers. -/
structure Receiver where
  manager : NackManager := {}
  highest : Option ℤ := none
  seen : Finset ℤ := ∅
  outstanding : List (ℤ × ℤ) := []

namespace Receiver

/-- The numbers that an arrival skips. -/
def gap (r : Receiver) (number : ℤ) : List ℤ :=
  match r.highest with
  | none => []
  | some m => (List.range (number - m - 1).toNat).map fun i : ℕ => m + 1 + (i : ℤ)

/-- An arrival, and what it means for the numbers skipped and not received since. -/
def step (r : Receiver) (a : Arrival) : Receiver where
  manager := r.manager.onReceive (.ofInt a.number) a.clock
  highest := some (r.highest.elim a.number (max a.number))
  seen := insert a.number r.seen
  outstanding :=
    (r.outstanding ++ (r.gap a.number).map fun x => (x, a.clock (.ofInt x))).filter
      (·.1 ≠ a.number)

/-- The gap of an arrival lies between the newest number and its own. -/
theorem mem_gap {r : Receiver} {number x : ℤ} :
    x ∈ r.gap number ↔ ∃ m, r.highest = some m ∧ m < x ∧ x < number := by
  unfold gap
  cases r.highest with
  | none => simp
  | some m =>
      rw [List.mem_map]
      constructor
      · rintro ⟨i, hi, rfl⟩
        rw [List.mem_range] at hi
        exact ⟨m, rfl, by omega, by omega⟩
      · rintro ⟨m', hm, hlow, hhigh⟩
        obtain rfl := Option.some.inj hm
        exact ⟨(x - m - 1).toNat, by rw [List.mem_range]; omega, by omega⟩

theorem mem_outstanding_step {r : Receiver} {a : Arrival} {p : ℤ × ℤ} :
    p ∈ (r.step a).outstanding ↔
      (p ∈ r.outstanding ∨ ∃ x ∈ r.gap a.number, p = (x, a.clock (.ofInt x))) ∧
        p.1 ≠ a.number := by
  rw [step, List.mem_filter, decide_eq_true_eq, List.mem_append, List.mem_map]
  refine and_congr_left fun _ => or_congr_right (exists_congr fun x => and_congr_right fun _ => ?_)
  exact eq_comm

end Receiver

open Receiver

/-- Every arrival lies within half a cycle of the highest number. -/
def InWindow (r : Receiver) (a : Arrival) : Prop :=
  ∀ m ∈ r.highest, m - 32767 ≤ a.number ∧ a.number ≤ m + 32767

instance (r : Receiver) (a : Arrival) : Decidable (InWindow r a) :=
  decidable_of_iff (∀ m ∈ r.highest.toList, m - 32767 ≤ a.number ∧ a.number ≤ m + 32767)
    (by simp only [InWindow, Option.mem_toList, Option.mem_def])

/-- Every outstanding number is in the record and is reported once 100 ms have passed since its gap
was found. -/
def Reported (r : Receiver) : Prop :=
  ∀ p ∈ r.outstanding,
    (r.manager.missing[UInt16.ofInt p.1]?).isSome ∧
      ∀ now, p.2 + 100000000 ≤ now → UInt16.ofInt p.1 ∈ r.manager.getNackList now

/-- No skipped number has the residue of one that has arrived, the arrival does not have the residue
of another outstanding number, and no number with the residue of an outstanding one is skipped at a
later time. -/
def Fresh (r : Receiver) (a : Arrival) : Prop :=
  (∀ x ∈ r.gap a.number, ∀ y ∈ r.seen, UInt16.ofInt y ≠ UInt16.ofInt x) ∧
  (∀ p ∈ r.outstanding, UInt16.ofInt p.1 = UInt16.ofInt a.number → p.1 = a.number) ∧
  ∀ p ∈ r.outstanding, ∀ x ∈ r.gap a.number, UInt16.ofInt x = UInt16.ofInt p.1 →
    a.clock (.ofInt x) ≤ p.2

instance (r : Receiver) (a : Arrival) : Decidable (Fresh r a) :=
  inferInstanceAs (Decidable (_ ∧ _ ∧ _))

/-- Every outstanding number has an entry that is not later than its gap. -/
def Recorded (r : Receiver) : Prop :=
  ∀ p ∈ r.outstanding, ∃ t ≤ p.2, r.manager.missing[UInt16.ofInt p.1]? = some t

/-- Reporting after the timeout is having recorded. -/
theorem reported_iff (r : Receiver) : Reported r ↔ Recorded r := by
  constructor
  · intro h p hp
    obtain ⟨t, hmissing, ht⟩ := NackManager.mem_getNackList.1 ((h p hp).2 _ (le_refl _))
    exact ⟨t, by omega, hmissing⟩
  · intro h p hp
    obtain ⟨t, ht, hmissing⟩ := h p hp
    refine ⟨Option.isSome_iff_exists.2 ⟨t, hmissing⟩, fun now hnow => ?_⟩
    exact NackManager.mem_getNackList.2 ⟨t, hmissing, by omega⟩

/-- How the manager reflects the unbounded numbers. -/
structure Inv (r : Receiver) : Prop where
  received_iff : ∀ k, k ∈ r.manager.received ↔ ∃ y ∈ r.seen, UInt16.ofInt y = k
  started_eq : r.manager.started = r.highest.isSome
  maxSeen_eq : ∀ m ∈ r.highest, r.manager.maxSeen = UInt16.ofInt m
  disjoint : ∀ k ∈ r.manager.received, r.manager.missing[k]? = none
  outstanding_nil : r.highest = none → r.outstanding = [] ∧ r.manager.missing = ∅

theorem inv_init : Inv {} where
  received_iff k := by simp
  started_eq := rfl
  maxSeen_eq m hm := by cases hm
  disjoint k hk := by simp at hk
  outstanding_nil _ := ⟨rfl, rfl⟩

/-! ## One arrival -/

variable {r : Receiver} {a : Arrival}

/-- A skipped number is less than one cycle below the arrival. -/
theorem ofInt_gap_ne (hwin : InWindow r a) {x : ℤ} (hx : x ∈ r.gap a.number) :
    UInt16.ofInt x ≠ UInt16.ofInt a.number := by
  intro heq
  obtain ⟨m, hm, hlow, hhigh⟩ := mem_gap.1 hx
  have hle := (hwin m hm).2
  rw [ofInt_eq_iff] at heq
  omega

/-- The manager walks over the skipped numbers. -/
theorem skipped_iff (hwin : InWindow r a) {m : ℤ} (hm : r.highest = some m) (k : UInt16) :
    (RtpPacket.seqGt (.ofInt a.number) (.ofInt m) = true ∧
        k ∈ between (.ofInt m) (.ofInt a.number)) ↔
      ∃ x ∈ r.gap a.number, UInt16.ofInt x = k := by
  obtain ⟨hlow, hhigh⟩ := hwin m hm
  have hnewer : RtpPacket.seqGt (.ofInt a.number) (.ofInt m) = true ↔ m < a.number :=
    newer_ofInt (by omega) (by omega)
  rw [hnewer]
  constructor
  · rintro ⟨hlt, hk⟩
    obtain ⟨x, hmx, hxa, hxk⟩ := (mem_between hlt (by omega) k).1 hk
    exact ⟨x, mem_gap.2 ⟨m, hm, hmx, hxa⟩, hxk⟩
  · rintro ⟨x, hx, hxk⟩
    obtain ⟨m', hm', hmx, hxa⟩ := mem_gap.1 hx
    obtain rfl : m' = m := Option.some.inj (hm'.symm.trans hm)
    have hlt : m' < a.number := by omega
    exact ⟨hlt, (mem_between hlt (by omega) k).2 ⟨x, hmx, hxa, hxk⟩⟩

/-- The record after an arrival: the arrival is dropped, the residues of the skipped numbers are
recorded unless they have been received before, and the rest stays. -/
theorem missing_step (h : Inv r) (hwin : InWindow r a) {m : ℤ} (hm : r.highest = some m)
    (k : UInt16) :
    (r.step a).manager.missing[k]? =
      if k = .ofInt a.number then none
      else if (∃ x ∈ r.gap a.number, UInt16.ofInt x = k) ∧ k ∉ r.manager.received then
        some (a.clock k)
      else r.manager.missing[k]? := by
  have hstarted : r.manager.started = true := by rw [h.started_eq, hm, Option.isSome_some]
  rw [step, NackManager.missing_onReceive hstarted, h.maxSeen_eq m hm]
  by_cases hk : k = .ofInt a.number
  · rw [if_pos hk, if_pos hk]
  · rw [if_neg hk, if_neg hk]
    refine if_congr ?_ rfl rfl
    rw [← and_assoc, skipped_iff hwin hm, Finset.mem_insert, not_or]
    exact and_congr_right fun _ => and_iff_right hk

/-- An arrival in the window keeps the invariant. -/
theorem Inv.step (h : Inv r) (hwin : InWindow r a) : Inv (r.step a) where
  received_iff k := by
    rw [Receiver.step, NackManager.received_onReceive, Finset.mem_insert, h.received_iff,
      Finset.exists_mem_insert]
    exact or_congr_left eq_comm
  started_eq := NackManager.started_onReceive _ _ _
  maxSeen_eq e he := by
    obtain rfl : r.highest.elim a.number (max a.number) = e := Option.some.inj he
    cases hm : r.highest with
    | none =>
        -- the first packet sets the maximum whatever it is
        have hstarted : r.manager.started = false := by rw [h.started_eq, hm, Option.isSome_none]
        simp only [Receiver.step, NackManager.maxSeen_onReceive, hstarted, hm, Option.elim_none]
        rfl
    | some m =>
        -- within the window the 16-bit comparison is that of the unbounded numbers
        obtain ⟨hlow, hhigh⟩ := hwin m hm
        have hstarted : r.manager.started = true := by rw [h.started_eq, hm, Option.isSome_some]
        have hnewer : RtpPacket.seqGt (.ofInt a.number) (.ofInt m) = true ↔ m < a.number :=
          newer_ofInt (by omega) (by omega)
        rw [Receiver.step, NackManager.maxSeen_onReceive, h.maxSeen_eq m hm, Option.elim_some]
        by_cases hlt : m < a.number
        · rw [if_pos fun _ => hnewer.2 hlt, max_eq_left (by omega)]
        · rw [if_neg, max_eq_right (by omega)]
          exact fun hnew => hlt (hnewer.1 (hnew hstarted))
  disjoint k hk := by
    rw [Receiver.step, NackManager.received_onReceive, Finset.mem_insert] at hk
    cases hm : r.highest with
    | none =>
        have hstarted : r.manager.started = false := by rw [h.started_eq, hm, Option.isSome_none]
        simp [Receiver.step, NackManager.onReceive, hstarted, (h.outstanding_nil hm).2]
    | some m =>
        -- the arrival is erased, and nothing that was received is recorded
        rw [missing_step h hwin hm]
        rcases hk with hk | hk
        · rw [if_pos hk]
        · split_ifs with hseq hgap
          · rfl
          · exact absurd hk hgap.2
          · exact h.disjoint k hk
  outstanding_nil hnone := by cases hnone

/-- Something is outstanding only behind an arrival. -/
theorem Inv.exists_highest (h : Inv r) {p : ℤ × ℤ} (hp : p ∈ r.outstanding) :
    ∃ m, r.highest = some m := by
  cases hm : r.highest with
  | none =>
      rw [(h.outstanding_nil hm).1] at hp
      cases hp
  | some m => exact ⟨m, rfl⟩

/-- A residue was not received if no number of that residue was. -/
theorem Inv.not_received (h : Inv r) {k : UInt16} :
    k ∉ r.manager.received ↔ ∀ y ∈ r.seen, UInt16.ofInt y ≠ k := by
  rw [h.received_iff, not_exists]
  exact forall_congr' fun _ => not_and

/-- A skipped number is recorded unless its residue has been received. -/
theorem missing_skipped (h : Inv r) (hwin : InWindow r a) {x : ℤ} (hx : x ∈ r.gap a.number) :
    (r.step a).manager.missing[UInt16.ofInt x]? =
      if UInt16.ofInt x ∈ r.manager.received then none else some (a.clock (.ofInt x)) := by
  obtain ⟨m, hm, -, -⟩ := mem_gap.1 hx
  rw [missing_step h hwin hm, if_neg (ofInt_gap_ne hwin hx)]
  split_ifs with hgap hreceived hreceived
  · exact absurd hreceived hgap.2
  · rfl
  · exact h.disjoint _ hreceived
  · exact absurd ⟨⟨x, hx, rfl⟩, hreceived⟩ hgap

/-- A gap that gets recorded has residues that were never seen. -/
theorem unseen_of_recorded_step (h : Inv r) (hwin : InWindow r a) (hnext : Recorded (r.step a))
    {x : ℤ} (hx : x ∈ r.gap a.number) : ∀ y ∈ r.seen, UInt16.ofInt y ≠ UInt16.ofInt x := by
  rw [← h.not_received]
  intro hreceived
  obtain ⟨-, -, -, hlt⟩ := mem_gap.1 hx
  have hmem : (x, a.clock (.ofInt x)) ∈ (r.step a).outstanding :=
    mem_outstanding_step.2 ⟨.inr ⟨x, hx, rfl⟩, hlt.ne⟩
  obtain ⟨t, -, ht⟩ := hnext _ hmem
  rw [missing_skipped h hwin hx, if_pos hreceived] at ht
  cases ht

/-- An arrival after which everything is recorded was fresh. -/
theorem fresh_of_recorded_step (h : Inv r) (hwin : InWindow r a) (hnext : Recorded (r.step a)) :
    Fresh r a := by
  refine ⟨fun x hx => unseen_of_recorded_step h hwin hnext hx, ?_, ?_⟩
  · -- the arrival erases the entry of its residue
    intro p hp hresidue
    by_contra hne
    obtain ⟨m, hm⟩ := h.exists_highest hp
    obtain ⟨t, -, ht⟩ := hnext p (mem_outstanding_step.2 ⟨.inl hp, hne⟩)
    rw [missing_step h hwin hm, if_pos hresidue] at ht
    cases ht
  · -- a skipped number overwrites the entry of its residue
    intro p hp x hx hresidue
    have hne : p.1 ≠ a.number := by
      intro heq
      apply ofInt_gap_ne hwin hx
      rw [hresidue, heq]
    obtain ⟨t, hle, ht⟩ := hnext p (mem_outstanding_step.2 ⟨.inl hp, hne⟩)
    have hunseen := unseen_of_recorded_step h hwin hnext hx
    rw [← hresidue, missing_skipped h hwin hx, if_neg (h.not_received.2 hunseen)] at ht
    obtain rfl := Option.some.inj ht
    exact hle

theorem recorded_step_of_fresh (h : Inv r) (hwin : InWindow r a) (hrec : Recorded r)
    (hfresh : Fresh r a) : Recorded (r.step a) := by
  obtain ⟨hunseen, hkept, hnotLater⟩ := hfresh
  intro p hp
  obtain ⟨hp, hne⟩ := mem_outstanding_step.1 hp
  rcases hp with hp | ⟨x, hx, rfl⟩
  · -- an older number keeps its entry, or the entry is overwritten with a time not later
    obtain ⟨m, hm⟩ := h.exists_highest hp
    have hresidue : UInt16.ofInt p.1 ≠ UInt16.ofInt a.number := by
      intro heq
      exact hne (hkept p hp heq)
    rw [missing_step h hwin hm, if_neg hresidue]
    split_ifs with hgap
    · obtain ⟨x, hx, hxp⟩ := hgap.1
      exact ⟨_, hxp ▸ hnotLater p hp x hx hxp, rfl⟩
    · exact hrec p hp
  · -- a number that this arrival skips
    refine ⟨_, le_refl _, ?_⟩
    rw [missing_skipped h hwin hx, if_neg (h.not_received.2 (hunseen x hx))]

/-- In a state that is in order, `Fresh` is the exact condition for the next state to be. -/
theorem recorded_step_iff (h : Inv r) (hwin : InWindow r a) (hrec : Recorded r) :
    Recorded (r.step a) ↔ Fresh r a := by
  constructor
  · exact fresh_of_recorded_step h hwin
  · exact recorded_step_of_fresh h hwin hrec

/-! ## Whole runs -/

theorem recorded_init : Inv {} ∧ Recorded {} :=
  ⟨inv_init, fun _ hp => absurd hp (List.not_mem_nil)⟩

/-- A run that reports everything records everything. -/
theorem recorded_step (h : Inv r ∧ Recorded r) (hnext : InWindow r a ∧ Reported (r.step a)) :
    Inv (r.step a) ∧ Recorded (r.step a) :=
  ⟨h.1.step hnext.1, (reported_iff _).1 hnext.2⟩

/-- A run of arrivals in the window keeps every outstanding number reported exactly when all of its
arrivals are fresh. -/
theorem reported_along_iff (arrivals : List Arrival) (hwin : Along step InWindow {} arrivals) :
    Along step (fun r a => Reported (r.step a)) {} arrivals ↔ Along step Fresh {} arrivals := by
  have hiff : ∀ r a, Inv r ∧ Recorded r →
      (InWindow r a ∧ Reported (r.step a) ↔ InWindow r a ∧ Fresh r a) := by
    intro r a h
    refine and_congr_right fun hwin => ?_
    rw [reported_iff]
    exact recorded_step_iff h.1 hwin h.2
  have hruns := along_congr (fun _ _ => recorded_step) hiff recorded_init arrivals
  rw [along_and_iff, along_and_iff, and_iff_right hwin, and_iff_right hwin] at hruns
  exact hruns

/-- Packet 3 is skipped and reported. -/
theorem reported_along_iff_oneGap :
    Along step (fun r a => Reported (r.step a)) {}
      [⟨1, fun _ => 0⟩, ⟨2, fun _ => 0⟩, ⟨4, fun _ => 0⟩] := by
  apply (reported_along_iff [⟨1, fun _ => 0⟩, ⟨2, fun _ => 0⟩, ⟨4, fun _ => 0⟩] (by decide)).2
  decide

/-- A run over more than one cycle: number 65536 is skipped, but number 0, which has the same
residue, has been received. -/
def secondCycle : List Arrival :=
  [⟨0, fun _ => 0⟩, ⟨32767, fun _ => 0⟩, ⟨65534, fun _ => 0⟩]

/-- The arrivals of the example stay in the window. -/
theorem inWindow_along_secondCycle :
    Along step InWindow {} (secondCycle ++ [⟨65537, fun _ => 0⟩]) := by
  refine ⟨?_, ?_, ?_, ?_, along_nil _⟩
  · intro m hm
    cases hm
  · intro m hm
    obtain rfl : (0 : ℤ) = m := Option.some.inj hm
    decide
  · intro m hm
    obtain rfl : (32767 : ℤ) = m := Option.some.inj hm
    decide
  · intro m hm
    obtain rfl : (65534 : ℤ) = m := Option.some.inj hm
    decide

theorem unreported_along_secondCycle :
    ¬ ∀ arrivals, Along step InWindow {} arrivals →
      Along step (fun r a => Reported (r.step a)) {} arrivals := by
  intro hclaim
  have hwin := inWindow_along_secondCycle
  have hrep := hclaim _ hwin
  rw [along_concat] at hwin hrep
  have hbefore : Inv (run step {} secondCycle) ∧ Recorded (run step {} secondCycle) :=
    inv_run (I := fun r => Inv r ∧ Recorded r) (fun _ _ => recorded_step) recorded_init
      (along_and_iff.2 ⟨hwin.1, hrep.1⟩)
  have hfresh := (recorded_step_iff hbefore.1 hwin.2 hbefore.2).1 ((reported_iff _).1 hrep.2)
  have hskipped : (65536 : ℤ) ∈ (run step {} secondCycle).gap 65537 :=
    mem_gap.2 ⟨65534, rfl, by decide, by decide⟩
  have hseen : (0 : ℤ) ∈ (run step {} secondCycle).seen := by decide
  exact hfresh.1 65536 hskipped 0 hseen (by decide)

end CppMeet.Weak.NackGaps
