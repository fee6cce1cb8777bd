import CppMeet.Rtp.NackRoundTrip
import CppMeet.Weak.NackGaps

/-!
# Repair by retransmission

A receiver puts its list of missing numbers into an RTCP packet, and the media sender reads the
packet and sends again what it names. All of it within one cycle of sequence numbers, and within the
window in which the receiver can compare them.

There the record of the manager is exactly the list of skipped numbers that have not arrived since
(`Exact`). So each round takes off the list exactly what arrives, and once a round arrives in full,
nothing is missing from the first packet on (`nack_repairs`).
-/

set_option autoImplicit false

namespace CppMeet.Weak.NackRepair

open CppMeet.Lib.Run CppMeet.Lib.Serial CppMeet.Lib.SortUnique CppMeet.Rtp.NackRoundTrip
open CppMeet.Rtp.Packet CppMeet.Rtp.Rtcp CppMeet.Weak.Nack CppMeet.Weak.NackGaps
open CppMeet.Weak.NackGaps.Receiver

/-- The number belongs to the cycle that starts at `first`. -/
def InCycle (first : ℤ) (a : Arrival) : Prop := first ≤ a.number ∧ a.number < first + 65536

/-- The manager has recorded what has been skipped and has not arrived, and nothing else. -/
structure Exact (first : ℤ) (r : Receiver) : Prop where
  highest_cycle : ∀ m ∈ r.highest, first ≤ m ∧ m < first + 65536
  seen_le : ∀ y ∈ r.seen, first ≤ y ∧ ∃ m ∈ r.highest, y ≤ m
  outstanding_lt : ∀ p ∈ r.outstanding, first ≤ p.1 ∧ ∃ m ∈ r.highest, p.1 < m
  missing_iff : ∀ k t, r.manager.missing[k]? = some t ↔
    ∃ x, UInt16.ofInt x = k ∧ (x, t) ∈ r.outstanding

/-- From `start` on, every number up to the highest one has arrived or is outstanding. -/
def Covers (start : ℤ) (r : Receiver) : Prop :=
  ∀ x, ∀ m ∈ r.highest, start ≤ x → x ≤ m → x ∈ r.seen ∨ ∃ t, (x, t) ∈ r.outstanding

variable {first start : ℤ} {r : Receiver} {a : Arrival}

theorem exact_init (first : ℤ) : Exact first {} where
  highest_cycle m hm := by cases hm
  seen_le y hy := by simp at hy
  outstanding_lt p hp := absurd hp List.not_mem_nil
  missing_iff k t := by simp

/-! ## One arrival -/

/-- Within one cycle a number is known by its residue. -/
theorem eq_of_residue {x y : ℤ} (hx : first ≤ x ∧ x < first + 65536)
    (hy : first ≤ y ∧ y < first + 65536) (h : UInt16.ofInt x = UInt16.ofInt y) : x = y := by
  rw [ofInt_eq_iff] at h
  omega

theorem Exact.outstanding_cycle (h : Exact first r) {p : ℤ × ℤ} (hp : p ∈ r.outstanding) :
    first ≤ p.1 ∧ p.1 < first + 65536 := by
  obtain ⟨hlow, m, hm, hlt⟩ := h.outstanding_lt p hp
  have hhigh := (h.highest_cycle m hm).2
  exact ⟨hlow, by omega⟩

theorem Exact.gap_cycle (h : Exact first r) (hcycle : InCycle first a) {x : ℤ}
    (hx : x ∈ r.gap a.number) : first ≤ x ∧ x < first + 65536 := by
  obtain ⟨hin, hout⟩ := hcycle
  obtain ⟨m, hm, hlow, hhigh⟩ := mem_gap.1 hx
  have hfirst := (h.highest_cycle m hm).1
  exact ⟨by omega, by omega⟩

/-- No number that this arrival skips has been received in this cycle. -/
theorem Exact.not_received_gap (h : Exact first r) (hinv : Inv r) (hcycle : InCycle first a) {x : ℤ}
    (hx : x ∈ r.gap a.number) : UInt16.ofInt x ∉ r.manager.received := by
  obtain ⟨m, hm, hlow, -⟩ := mem_gap.1 hx
  rw [hinv.received_iff]
  rintro ⟨y, hy, heq⟩
  obtain ⟨hfirst, m', hm', hle⟩ := h.seen_le y hy
  obtain rfl : m = m' := Option.some.inj (hm.symm.trans hm')
  have hlt := (h.highest_cycle m hm).2
  have hxy := eq_of_residue ⟨hfirst, by omega⟩ (h.gap_cycle hcycle hx) heq
  omega

theorem Exact.outstanding_step_cycle (h : Exact first r) (hcycle : InCycle first a) {p : ℤ × ℤ}
    (hp : p ∈ (r.step a).outstanding) : first ≤ p.1 ∧ p.1 < first + 65536 := by
  rcases (mem_outstanding_step.1 hp).1 with hold | ⟨x, hx, rfl⟩
  · exact h.outstanding_cycle hold
  · exact h.gap_cycle hcycle hx

/-- What is missing after an arrival is what is outstanding. -/
theorem Exact.missing_step (h : Exact first r) (hinv : Inv r) (hwin : InWindow r a)
    (hcycle : InCycle first a) (k : UInt16) (t : ℤ) :
    (r.step a).manager.missing[k]? = some t ↔
      ∃ x, UInt16.ofInt x = k ∧ (x, t) ∈ (r.step a).outstanding := by
  cases hm : r.highest with
  | none =>
      -- the first packet skips nothing
      obtain ⟨hnil, hmissing⟩ := hinv.outstanding_nil hm
      have hstarted : r.manager.started = false := by rw [hinv.started_eq, hm, Option.isSome_none]
      have hgap : r.gap a.number = [] := by rw [gap, hm]
      have hnone : (r.step a).manager.missing[k]? = none := by
        simp [Receiver.step, NackManager.onReceive, hstarted, hmissing]
      rw [hnone]
      refine iff_of_false (by simp) ?_
      rintro ⟨x, -, hx⟩
      rw [mem_outstanding_step, hnil, hgap] at hx
      rcases hx.1 with hold | ⟨y, hy, -⟩
      · exact absurd hold List.not_mem_nil
      · exact absurd hy List.not_mem_nil
  | some m =>
      rw [NackGaps.missing_step hinv hwin hm]
      by_cases hk : k = .ofInt a.number
      · -- the arrival itself is on neither side
        rw [if_pos hk]
        refine iff_of_false (by simp) ?_
        rintro ⟨x, hx, hmem⟩
        have hxcycle := h.outstanding_step_cycle hcycle hmem
        exact (mem_outstanding_step.1 hmem).2 (eq_of_residue hxcycle hcycle (hx.trans hk))
      · rw [if_neg hk]
        by_cases hgap : ∃ x ∈ r.gap a.number, UInt16.ofInt x = k
        · obtain ⟨x, hx, rfl⟩ := hgap
          have hxcycle := h.gap_cycle hcycle hx
          obtain ⟨m', hm', hlow, hhigh⟩ := mem_gap.1 hx
          rw [if_pos ⟨⟨x, hx, rfl⟩, h.not_received_gap hinv hcycle hx⟩, Option.some.injEq]
          constructor
          · rintro rfl
            exact ⟨x, rfl, mem_outstanding_step.2 ⟨Or.inr ⟨x, hx, rfl⟩, hhigh.ne⟩⟩
          · rintro ⟨y, hy, hmem⟩
            have hyx := eq_of_residue (h.outstanding_step_cycle hcycle hmem) hxcycle hy
            rcases (mem_outstanding_step.1 hmem).1 with hold | ⟨x', -, heq⟩
            · -- older numbers lie below the gap
              obtain ⟨-, m'', hm'', hlt⟩ := h.outstanding_lt _ hold
              obtain rfl : m' = m'' := Option.some.inj (hm'.symm.trans hm'')
              dsimp only at hlt hyx
              omega
            · cases heq
              rw [hy]
        · rw [if_neg fun hboth => hgap hboth.1, h.missing_iff]
          refine exists_congr fun x => and_congr_right fun hx => ?_
          rw [mem_outstanding_step]
          constructor
          · intro hold
            exact ⟨Or.inl hold, fun heq => hk (hx.symm.trans (congrArg UInt16.ofInt heq))⟩
          · rintro ⟨hold | ⟨y, hy, heq⟩, -⟩
            · exact hold
            · cases heq
              exact absurd ⟨x, hy, hx⟩ hgap

theorem highest_step (r : Receiver) (a : Arrival) :
    ∃ m ∈ (r.step a).highest, a.number ≤ m ∧ (∀ m' ∈ r.highest, m' ≤ m) ∧
      (m = a.number ∨ m ∈ r.highest) := by
  rw [Receiver.step]
  cases r.highest with
  | none => exact ⟨a.number, rfl, le_refl _, fun m' hm' => (by cases hm'), Or.inl rfl⟩
  | some m =>
      refine ⟨max a.number m, rfl, le_max_left _ _, ?_, ?_⟩
      · rintro m' ⟨⟩
        exact le_max_right _ _
      · exact (max_choice a.number m).imp_right fun hmax => congrArg some hmax.symm

/-- Every arrival of the cycle keeps the map exact. -/
theorem Exact.step (h : Exact first r) (hinv : Inv r) (hwin : InWindow r a)
    (hcycle : InCycle first a) : Exact first (r.step a) := by
  obtain ⟨m, hm, ham, hold, hsource⟩ := highest_step r a
  constructor
  case highest_cycle =>
    intro m' hm'
    obtain rfl := Option.some.inj (hm.symm.trans hm')
    -- the highest number is the one that arrived or the one before
    rcases hsource with rfl | hbefore
    · exact hcycle
    · exact h.highest_cycle m hbefore
  case seen_le =>
    intro y hy
    rcases Finset.mem_insert.1 hy with rfl | hy
    · exact ⟨hcycle.1, m, hm, ham⟩
    · obtain ⟨hfirst, m', hm', hle⟩ := h.seen_le y hy
      exact ⟨hfirst, m, hm, hle.trans (hold m' hm')⟩
  case outstanding_lt =>
    intro p hp
    refine ⟨(h.outstanding_step_cycle hcycle hp).1, m, hm, ?_⟩
    -- a number that is waited for was so before, or lies in the new gap
    rcases (mem_outstanding_step.1 hp).1 with hbefore | ⟨x, hx, rfl⟩
    · obtain ⟨-, m', hm', hlt⟩ := h.outstanding_lt p hbefore
      exact lt_of_lt_of_le hlt (hold m' hm')
    · obtain ⟨-, -, -, hlt⟩ := mem_gap.1 hx
      exact lt_of_lt_of_le hlt ham
  case missing_iff => exact h.missing_step hinv hwin hcycle

/-- The numbers from the start on stay covered. -/
theorem Covers.step (h : Covers start r) (hsome : r.highest.isSome) :
    Covers start (r.step a) := by
  obtain ⟨m, hm⟩ := Option.isSome_iff_exists.1 hsome
  intro x m' hm' hstart hle
  by_cases hxa : x = a.number
  · exact Or.inl (hxa ▸ Finset.mem_insert_self _ _)
  · by_cases hxm : x ≤ m
    · rcases h x m hm hstart hxm with hseen | ⟨t, ht⟩
      · exact Or.inl (Finset.mem_insert_of_mem hseen)
      · exact Or.inr ⟨t, mem_outstanding_step.2 ⟨Or.inl ht, hxa⟩⟩
    · -- the number lies in the gap of this arrival
      have hmax : max a.number m = m' := by
        rw [Receiver.step, hm] at hm'
        exact Option.some.inj hm'
      have hgap : x ∈ r.gap a.number := mem_gap.2 ⟨m, hm, by omega, by omega⟩
      exact Or.inr ⟨_, mem_outstanding_step.2 ⟨Or.inr ⟨x, hgap, rfl⟩, hxa⟩⟩

/-! ## Runs -/

/-- What is known of a receiver in the cycle from `first` on, whose first packet was `start`. -/
structure Good (first start : ℤ) (r : Receiver) : Prop where
  inv : Inv r
  exact : Exact first r
  covers : Covers start r
  highest : r.highest.isSome

theorem good_first (hcycle : InCycle first a) : Good first a.number (Receiver.step {} a) where
  inv := inv_init.step fun m hm => by cases hm
  exact := (exact_init first).step inv_init (fun m hm => by cases hm) hcycle
  covers x m hm hstart hle := by
    obtain rfl : a.number = m := Option.some.inj hm
    obtain rfl : x = a.number := le_antisymm hle hstart
    exact Or.inl (Finset.mem_insert_self _ _)
  highest := rfl

theorem Good.run (h : Good first start r) {arrivals : List Arrival}
    (hwin : Along Receiver.step InWindow r arrivals) (hcycle : ∀ b ∈ arrivals, InCycle first b) :
    Good first start (run Receiver.step r arrivals) := by
  induction arrivals generalizing r with
  | nil => exact h
  | cons b arrivals ih =>
      obtain ⟨hb, hrest⟩ := List.forall_mem_cons.1 hcycle
      refine ih ⟨h.inv.step hwin.1, h.exact.step h.inv hwin.1 hb, h.covers.step h.highest, rfl⟩
        hwin.2 hrest

/-- The manager names the residues of the numbers that have been outstanding for 100 ms. -/
theorem Exact.mem_getNackList_iff (h : Exact first r) (now : ℤ) (k : UInt16) :
    k ∈ r.manager.getNackList now ↔
      ∃ x t, UInt16.ofInt x = k ∧ (x, t) ∈ r.outstanding ∧ t + 100000000 ≤ now := by
  rw [NackManager.mem_getNackList]
  constructor
  · rintro ⟨t, hmissing, htime⟩
    obtain ⟨x, hx, hmem⟩ := (h.missing_iff k t).1 hmissing
    exact ⟨x, t, hx, hmem, htime⟩
  · rintro ⟨x, t, hx, hmem, htime⟩
    exact ⟨t, (h.missing_iff k t).2 ⟨x, hx, hmem⟩, htime⟩

/-- Packets below the highest number only take numbers off the list. -/
theorem outstanding_run {m : ℤ} (hm : r.highest = some m) {resent : List Arrival}
    (hle : ∀ b ∈ resent, b.number ≤ m) :
    (run Receiver.step r resent).highest = some m ∧
      ∀ p, p ∈ (run Receiver.step r resent).outstanding ↔
        p ∈ r.outstanding ∧ ∀ b ∈ resent, p.1 ≠ b.number := by
  induction resent generalizing r with
  | nil => exact ⟨hm, fun p => (and_iff_left (List.forall_mem_nil _)).symm⟩
  | cons b resent ih =>
      obtain ⟨hb, hrest⟩ := List.forall_mem_cons.1 hle
      have hnext : (r.step b).highest = some m := by
        rw [Receiver.step, hm]
        exact congrArg some (max_eq_right hb)
      obtain ⟨hhighest, hmem⟩ := ih hnext hrest
      refine ⟨hhighest, fun p => (hmem p).trans ?_⟩
      have hgap : ∀ x, x ∉ r.gap b.number := by
        intro x hx
        obtain ⟨m', hm', hlow, hhigh⟩ := mem_gap.1 hx
        obtain rfl := Option.some.inj (hm.symm.trans hm')
        omega
      rw [mem_outstanding_step, List.forall_mem_cons, and_assoc]
      refine and_congr_left fun _ => or_iff_left ?_
      rintro ⟨x, hx, -⟩
      exact hgap x hx

/-- Within one cycle: the media sender reads off the NACK packet the list that the manager put in.
When some of the packets that it names arrive again, in any order and how often, exactly these are
no longer named; when all do, and the gaps were at least 100 ms old, nothing is, and every packet
has arrived from the first one on. -/
theorem nack_repairs (first : ℤ) (a : Arrival) (arrivals : List Arrival)
    (hcycle : ∀ b ∈ a :: arrivals, InCycle first b)
    (hwin : Along Receiver.step InWindow {} (a :: arrivals)) (senderSsrc mediaSsrc : UInt32)
    (old : RtcpNack) (now : ℤ) :
    let r := run Receiver.step {} (a :: arrivals)
    let asked := r.manager.getNackList now
    old.parse (RtcpNack.serialize ⟨senderSsrc, mediaSsrc, asked⟩) =
        some (true, ⟨senderSsrc, mediaSsrc, asked⟩) ∧
      ∀ resent, (∀ b ∈ resent, InCycle first b ∧ UInt16.ofInt b.number ∈ asked) →
        Along Receiver.step InWindow r resent →
        let r' := run Receiver.step r resent
        (∀ later k, k ∈ r'.manager.getNackList later ↔
          k ∈ r.manager.getNackList later ∧ ∀ b ∈ resent, UInt16.ofInt b.number ≠ k) ∧
        ((∀ k ∈ asked, ∃ b ∈ resent, UInt16.ofInt b.number = k) →
          (∀ p ∈ r.outstanding, p.2 + 100000000 ≤ now) →
          (∀ later, r'.manager.getNackList later = []) ∧
            ∀ x, ∀ m ∈ r.highest, a.number ≤ x → x ≤ m → x ∈ r'.seen) := by
  intro r asked
  obtain ⟨hfirst, hrest⟩ := List.forall_mem_cons.1 hcycle
  have hgood : Good first a.number r := (good_first hfirst).run hwin.2 hrest
  obtain ⟨m, hm⟩ := Option.isSome_iff_exists.1 hgood.highest
  have hparse := parse_serialize_eq ⟨senderSsrc, mediaSsrc, asked⟩ old
  rw [sortUnique_eq_self (r.manager.pairwise_getNackList now)] at hparse
  refine ⟨hparse, fun resent hresent hwin' => ?_⟩
  intro r'
  have hgood' : Good first a.number r' := hgood.run hwin' fun b hb => (hresent b hb).1
  -- what is sent again was outstanding, so it is below the highest number
  have hasked : ∀ b ∈ resent, ∃ t, (b.number, t) ∈ r.outstanding := by
    intro b hb
    obtain ⟨hbcycle, hmem⟩ := hresent b hb
    rw [hgood.exact.mem_getNackList_iff] at hmem
    obtain ⟨x, t, hx, hmem, -⟩ := hmem
    exact ⟨t, eq_of_residue (hgood.exact.outstanding_cycle hmem) hbcycle hx ▸ hmem⟩
  have hle : ∀ b ∈ resent, b.number ≤ m := by
    intro b hb
    obtain ⟨t, ht⟩ := hasked b hb
    obtain ⟨-, m', hm', hlt⟩ := hgood.exact.outstanding_lt _ ht
    obtain rfl := Option.some.inj (hm.symm.trans hm')
    exact hlt.le
  obtain ⟨hhighest, hmem⟩ := outstanding_run hm hle
  refine ⟨fun later k => ?_, fun hall htimes => ?_⟩
  · rw [hgood'.exact.mem_getNackList_iff, hgood.exact.mem_getNackList_iff]
    constructor
    · rintro ⟨x, t, hx, hp, htime⟩
      obtain ⟨hbefore, hne⟩ := (hmem (x, t)).1 hp
      refine ⟨⟨x, t, hx, hbefore, htime⟩, fun b hb heq => hne b hb ?_⟩
      have hxcycle := hgood.exact.outstanding_cycle hbefore
      exact eq_of_residue hxcycle (hresent b hb).1 (hx.trans heq.symm)
    · rintro ⟨⟨x, t, hx, hbefore, htime⟩, hne⟩
      refine ⟨x, t, hx, (hmem (x, t)).2 ⟨hbefore, fun b hb heq => hne b hb ?_⟩, htime⟩
      rw [← heq]
      exact hx
  · have hnone : ∀ p, p ∉ r'.outstanding := by
      intro p hp
      obtain ⟨hbefore, hne⟩ := (hmem p).1 hp
      have hnamed : UInt16.ofInt p.1 ∈ r.manager.getNackList now :=
        (hgood.exact.mem_getNackList_iff now _).2 ⟨p.1, p.2, rfl, hbefore, htimes p hbefore⟩
      obtain ⟨b, hb, heq⟩ := hall _ hnamed
      have hpcycle := hgood.exact.outstanding_cycle hbefore
      exact hne b hb (eq_of_residue hpcycle (hresent b hb).1 heq.symm)
    refine ⟨fun later => ?_, fun x m' hm' hstart hlex => ?_⟩
    · rw [List.eq_nil_iff_forall_not_mem]
      intro k hk
      obtain ⟨x, t, -, hp, -⟩ := (hgood'.exact.mem_getNackList_iff later k).1 hk
      exact hnone _ hp
    · obtain rfl := Option.some.inj (hm.symm.trans hm')
      rcases hgood'.covers x m hhighest hstart hlex with hseen | ⟨t, ht⟩
      · exact hseen
      · exact absurd ht (hnone _)

/-- Packets 1, 4 and 6 arrive; the others are named. -/
def threeArrived : List Arrival := [⟨1, fun _ => 0⟩, ⟨4, fun _ => 0⟩, ⟨6, fun _ => 0⟩]

/-- They are sent again and arrive in another order. -/
def threeResent : List Arrival := [⟨5, fun _ => 0⟩, ⟨2, fun _ => 0⟩, ⟨3, fun _ => 0⟩]

theorem nack_repairs_threeResent :
    let r := run Receiver.step (run Receiver.step {} threeArrived) threeResent
    (∀ later, r.manager.getNackList later = []) ∧ ∀ x, 1 ≤ x → x ≤ 6 → x ∈ r.seen := by
  intro r
  have hcycle : ∀ b ∈ threeArrived, InCycle 0 b := by simp [threeArrived, InCycle]
  have hwin : Along Receiver.step InWindow {} threeArrived := by decide
  obtain ⟨-, hrepair⟩ :=
    nack_repairs 0 ⟨1, fun _ => 0⟩ [⟨4, fun _ => 0⟩, ⟨6, fun _ => 0⟩] hcycle hwin 7 8 ⟨0, 0, []⟩
      100000000
  have hasked : (run Receiver.step {} threeArrived).manager.getNackList 100000000 = [2, 3, 5] := by
    decide
  have hnamed : ∀ b ∈ threeResent, UInt16.ofInt b.number ∈ [2, 3, 5] := by decide
  have hcycle' : ∀ b ∈ threeResent, InCycle 0 b := by simp [threeResent, InCycle]
  obtain ⟨-, hdone⟩ := hrepair threeResent
    (fun b hb => ⟨hcycle' b hb, hasked.symm ▸ hnamed b hb⟩) (by decide)
  refine (hdone (fun k hk => ?_) (by decide)).imp_right fun hseen x => hseen x 6 rfl
  have hresent : [2, 3, 5] ⊆ threeResent.map fun b => UInt16.ofInt b.number := by decide
  exact List.mem_map.1 (hresent (hasked ▸ hk))

end CppMeet.Weak.NackRepair
