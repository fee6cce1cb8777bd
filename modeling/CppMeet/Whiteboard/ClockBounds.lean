import CppMeet.Whiteboard.Replicas

/-!
# The clock against what comes in

A peer can send single entries or its whole whiteboard, with any 64-bit timestamps. `MovesPast` says
that the clock ends ahead of every timestamp that came in, that it does not fall back, and that the
next local operation has a larger stamp than everything that came in. The clock wraps at the top of
its range, so this needs that no timestamp is one of the last two, and a whiteboard whose clock is
already at the top starts again at 0 (`movesPast_iff`).
-/

set_option autoImplicit false

namespace CppMeet.Whiteboard.ClockBounds

open CppMeet.Lib.HashMap CppMeet.Whiteboard.Crdt CppMeet.Whiteboard.Crdt.CrdtWhiteboard
open CppMeet.Whiteboard.Replicas

/-- What a peer sends. -/
inductive Incoming where
  | entry (op : Op)
  | state (other : CrdtWhiteboard) (addOrder : IterOrder String AddEntry)
      (removeOrder : IterOrder String RemoveEntry)

namespace Incoming

/-- What comes from another peer is taken in. -/
def incorporate (w : CrdtWhiteboard) : Incoming → CrdtWhiteboard
  | .entry op => receive w op
  | .state other addOrder removeOrder => w.merge other addOrder removeOrder

/-- The timestamps that come in, each with the id of its peer. -/
def stamps : Incoming → Set (UInt64 × String)
  | .entry op => {(op.ts, op.peerId)}
  | .state other _ _ =>
      {st | ∃ uuid e, other.added.lookup uuid = some e ∧ (e.ts, e.peerId) = st} ∪
        {st | ∃ uuid e, other.removed.lookup uuid = some e ∧ (e.ts, e.peerId) = st}

end Incoming

/-- The stamp of the next local operation. -/
def nextStamp (w : CrdtWhiteboard) : ℕ ×ₗ String := stampOf w.tick.lamportTs w.peerId

theorem stampOf_localAdd (w : CrdtWhiteboard) (s : Stroke) :
    stampOf (w.localAdd s).lamportTs (w.localAdd s).peerId = nextStamp w := by
  rw [localAdd_lamportTs, localAdd_peerId, nextStamp]

theorem stampOf_localRemove (w : CrdtWhiteboard) (uuid : String) :
    stampOf (w.localRemove uuid).lamportTs (w.localRemove uuid).peerId = nextStamp w := by
  rw [localRemove_lamportTs, localRemove_peerId, nextStamp]

/-- The clock is ahead of everything that came in, has not gone back, and the next local entries get
stamps behind all of these. -/
structure MovesPast (w : CrdtWhiteboard) (inc : Incoming) : Prop where
  ahead : ∀ st ∈ inc.stamps, st.1.toNat < (inc.incorporate w).lamportTs.toNat
  forward : w.lamportTs.toNat ≤ (inc.incorporate w).lamportTs.toNat
  added : ∀ s : Stroke, ∀ st ∈ inc.stamps, stampOf st.1 st.2 <
    stampOf ((inc.incorporate w).localAdd s).lamportTs ((inc.incorporate w).localAdd s).peerId
  removed : ∀ uuid : String, ∀ st ∈ inc.stamps, stampOf st.1 st.2 <
    stampOf ((inc.incorporate w).localRemove uuid).lamportTs
      ((inc.incorporate w).localRemove uuid).peerId

/-- The timestamps are below the last two, and a clock at the top meets only stamps below those of
its peer at 0. -/
structure InRange (w : CrdtWhiteboard) (inc : Incoming) : Prop where
  below : ∀ st ∈ inc.stamps, st.1.toNat < 2 ^ 64 - 2
  top : w.lamportTs.toNat = 2 ^ 64 - 1 → ∀ st ∈ inc.stamps, stampOf st.1 st.2 < stampOf 0 w.peerId

/-! ## The clock -/

variable {w : CrdtWhiteboard} {inc : Incoming}

theorem incorporate_peerId (w : CrdtWhiteboard) (inc : Incoming) :
    (inc.incorporate w).peerId = w.peerId := by
  cases inc with
  | entry op => exact receive_peerId w op
  | state other addOrder removeOrder => exact w.merge_peerId other addOrder removeOrder

theorem image_fst {V : Type} (m : UnorderedMap String V) (tsOf : V → UInt64)
    (peerOf : V → String) :
    Prod.fst '' {st | ∃ uuid e, m.lookup uuid = some e ∧ (tsOf e, peerOf e) = st} =
      {ts | ∃ uuid e, m.lookup uuid = some e ∧ tsOf e = ts} := by
  ext ts
  constructor
  · rintro ⟨_, ⟨uuid, e, he, rfl⟩, rfl⟩
    exact ⟨uuid, e, he, rfl⟩
  · rintro ⟨uuid, e, he, rfl⟩
    exact ⟨_, ⟨uuid, e, he, rfl⟩, rfl⟩

/-- Incoming stamps below the top move the clock past themselves. -/
theorem incorporate_passes (h : ∀ st ∈ inc.stamps, st.1.toNat + 1 < 2 ^ 64) :
    Passes (Prod.fst '' inc.stamps) w.lamportTs (inc.incorporate w).lamportTs := by
  cases inc with
  | entry op =>
      have hclock := w.updateClock_passes op.ts (h _ rfl)
      rw [← receive_lamportTs] at hclock
      rw [Incoming.stamps, Set.image_singleton]
      exact hclock
  | state other addOrder removeOrder =>
      have hset : Prod.fst '' (Incoming.state other addOrder removeOrder).stamps =
          other.timestamps := by
        rw [Incoming.stamps, Set.image_union, image_fst _ AddEntry.ts, image_fst _ RemoveEntry.ts]
        rfl
      rw [hset]
      apply w.merge_passes other addOrder removeOrder
      intro ts hts
      obtain ⟨st, hst, rfl⟩ := hset ▸ hts
      exact h st hst

theorem tick_lamportTs_top (h : w.lamportTs.toNat = 2 ^ 64 - 1) : w.tick.lamportTs = 0 := by
  apply UInt64.toNat_inj.1
  simp only [tick, UInt64.toNat_add, h]
  rfl

/-- From the top of its range the clock restarts at 0. -/
theorem nextStamp_top (h : w.lamportTs.toNat = 2 ^ 64 - 1) : nextStamp w = stampOf 0 w.peerId := by
  rw [nextStamp, tick_lamportTs_top h]

/-- Below the top of its range the clock ticks past everything it is ahead of. -/
theorem lt_nextStamp {ts : UInt64} (p : String) (h : ts.toNat < w.lamportTs.toNat)
    (hw : w.lamportTs.toNat ≠ 2 ^ 64 - 1) : stampOf ts p < nextStamp w := by
  have hlt := w.lamportTs.toNat_lt
  apply stampOf_lt_iff.2
  rw [tick_lamportTs w (by omega)]
  exact Or.inl (Nat.lt_succ_of_lt h)

/-! ## The condition -/

/-- In range, the clock moves past what comes in. -/
theorem movesPast_of_inRange (h : InRange w inc) : MovesPast w inc := by
  have hpasses : Passes (Prod.fst '' inc.stamps) w.lamportTs (inc.incorporate w).lamportTs := by
    apply incorporate_passes
    intro st hst
    have hbelow := h.below st hst
    omega
  have hahead : ∀ st ∈ inc.stamps, st.1.toNat < (inc.incorporate w).lamportTs.toNat :=
    fun st hst => hpasses.lt _ (Set.mem_image_of_mem _ hst)
  have hnext : ∀ st ∈ inc.stamps, stampOf st.1 st.2 < nextStamp (inc.incorporate w) := by
    intro st hst
    by_cases htop : (inc.incorporate w).lamportTs.toNat = 2 ^ 64 - 1
    · -- the clock was at the top before, since nothing that came in is near it
      rw [nextStamp_top htop, incorporate_peerId]
      apply h.top _ st hst
      rcases hpasses.least with heq | ⟨_, ⟨st', hst', rfl⟩, heq⟩
      · rw [← heq, htop]
      · have hbelow := h.below st' hst'
        omega
    · exact lt_nextStamp st.2 (hahead st hst) htop
  refine ⟨hahead, hpasses.le, fun s st hst => ?_, fun uuid st hst => ?_⟩
  · rw [stampOf_localAdd]
    exact hnext st hst
  · rw [stampOf_localRemove]
    exact hnext st hst

theorem inRange_of_movesPast (h : MovesPast w inc) : InRange w inc := by
  have hlt := (inc.incorporate w).lamportTs.toNat_lt
  have hnext : ∀ st ∈ inc.stamps, stampOf st.1 st.2 < nextStamp (inc.incorporate w) := by
    intro st hst
    rw [← stampOf_localRemove _ ""]
    exact h.removed "" st hst
  constructor
  · intro st hst
    have hahead := h.ahead st hst
    by_contra hnear
    -- the clock is at the top and ticks to 0
    have hwins := hnext st hst
    rw [nextStamp_top (by omega), stampOf_lt_iff, UInt64.toNat_zero] at hwins
    omega
  · intro htop st hst
    have hforward := h.forward
    rw [← incorporate_peerId w inc, ← nextStamp_top (by omega)]
    exact hnext st hst

/-- Incorporating what comes in moves the clock past it, for any whiteboard and any timestamps,
exactly if these are in range. -/
theorem movesPast_iff (w : CrdtWhiteboard) (inc : Incoming) : MovesPast w inc ↔ InRange w inc :=
  ⟨inRange_of_movesPast, movesPast_of_inRange⟩

/-- A removal with the largest timestamp sets the clock of a new whiteboard to 0. -/
theorem not_movesPast_lastTimestamp :
    ¬ ∀ (w : CrdtWhiteboard) (inc : Incoming), MovesPast w inc := by
  intro h
  have hlast := (h (.ofPeer "B") (.entry (.remove "s1" ⟨0xFFFFFFFFFFFFFFFF, "A"⟩))).ahead
    (0xFFFFFFFFFFFFFFFF, "A") rfl
  revert hlast
  decide

end CppMeet.Whiteboard.ClockBounds
