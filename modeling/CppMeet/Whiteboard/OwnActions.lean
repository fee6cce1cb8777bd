import CppMeet.Whiteboard.Replicas

/-!
# A user's own actions take effect

Drawing and erasing are last-writer-wins updates, which do nothing when the whiteboard holds an
entry with a larger stamp. In a run of a network they never find one: the clock of a replica is
never behind an operation that the replica has incorporated (`NotBehind`), so the next local
operation has the largest stamp, and the operation with the largest stamp decides what is shown of
its stroke (`shows_of_last`).
-/

set_option autoImplicit false

namespace CppMeet.Whiteboard.OwnActions

open CppMeet.Lib.HashMap CppMeet.Lib.LastWriter CppMeet.Lib.Run CppMeet.Whiteboard.Crdt
open CppMeet.Whiteboard.Crdt.CrdtWhiteboard CppMeet.Whiteboard.Replicas

universe u

variable {ι : Type u}

/-- What a user does to one stroke. -/
inductive Action where
  | add (s : Stroke)
  | remove (uuid : String)

namespace Action

/-- The action, taken by peer `i`. -/
def event (i : ι) : Action → Event ι
  | .add s => .localAdd i s
  | .remove uuid => .localRemove i uuid

/-- The stroke the action is about. -/
def uuid : Action → String
  | .add s => s.uuid
  | .remove uuid => uuid

/-- The strokes with the uuid of the action that are to be seen after it. -/
def shown : Action → List Stroke
  | .add s => [s]
  | .remove _ => []

/-- What the action does to the whiteboard of the peer. -/
def perform (w : CrdtWhiteboard) : Action → CrdtWhiteboard
  | .add s => w.localAdd s
  | .remove uuid => w.localRemove uuid

/-- The operation of an action with the given stamp. -/
def op (ts : UInt64) (peerId : String) : Action → Op
  | .add s => .add ⟨s, ts, peerId⟩
  | .remove uuid => .remove uuid ⟨ts, peerId⟩

end Action

/-- The uuid that an operation is about. -/
def opUuid : Op → String
  | .add e => e.stroke.uuid
  | .remove uuid _ => uuid

/-- The visible strokes with a given uuid. -/
def strokesOf (w : CrdtWhiteboard) (order : IterOrder String AddEntry) (uuid : String) :
    List Stroke :=
  (w.visibleStrokes order).filter fun s => s.uuid = uuid

/-! ## What is shown of a uuid -/

/-- At most one stroke is shown for a uuid, in any order of the loop. -/
theorem strokesOf_eq (w : CrdtWhiteboard) (order : IterOrder String AddEntry) (uuid : String) :
    strokesOf w order uuid =
      if w.isVisible uuid then ((w.added.lookup uuid).map AddEntry.stroke).toList else [] := by
  have hkeyed := w.iteration_keyed (order w.added)
  -- a stroke is stored under its own uuid
  have hvisits : ((order w.added).visits.filter fun p => w.isVisible p.1).filter
      (fun p => p.2.stroke.uuid = uuid) =
      ((order w.added).visits.filter fun p => p.1 = uuid).filter fun p => w.isVisible p.1 := by
    rw [List.filter_filter, List.filter_filter]
    apply List.filter_congr
    intro p hp
    rw [hkeyed p hp, Bool.and_comm]
  rw [strokesOf, visibleStrokes, List.filter_map]
  change List.map _ (List.filter
    (fun p : Σ _ : String, AddEntry => decide (p.2.stroke.uuid = uuid)) _) = _
  rw [hvisits, Iteration.filter_key]
  cases w.added.lookup uuid with
  | none =>
      rw [Option.map_none, Option.map_none]
      exact (ite_self _).symm
  | some e =>
      cases hvis : w.isVisible uuid with
      | false => simp [hvis]
      | true => simp [hvis]

/-- Where the entries of a uuid agree, the same is shown of it. -/
theorem isVisible_congr {w w' : CrdtWhiteboard} {uuid : String}
    (hadd : w.added.lookup uuid = w'.added.lookup uuid)
    (hrem : w.removed.lookup uuid = w'.removed.lookup uuid) :
    w.isVisible uuid = w'.isVisible uuid := by
  rw [isVisible, isVisible, hadd, hrem]

/-- What is shown of a stroke depends on its two entries. -/
theorem strokesOf_congr {w w' : CrdtWhiteboard} {uuid : String}
    (hadd : w.added.lookup uuid = w'.added.lookup uuid)
    (hrem : w.removed.lookup uuid = w'.removed.lookup uuid)
    (order order' : IterOrder String AddEntry) :
    strokesOf w order uuid = strokesOf w' order' uuid := by
  rw [strokesOf_eq, strokesOf_eq, isVisible_congr hadd hrem, hadd]

/-- An action touches the entries of its own uuid only. -/
theorem perform_other (w : CrdtWhiteboard) (a : Action) {uuid : String} (h : uuid ≠ a.uuid) :
    (a.perform w).added.lookup uuid = w.added.lookup uuid ∧
      (a.perform w).removed.lookup uuid = w.removed.lookup uuid := by
  cases a with
  | add s =>
      rw [Action.perform, localAdd, recordAdd_added, recordAdd_removed, lookup_offerAt,
        if_neg (show uuid ≠ s.uuid from h)]
      exact ⟨rfl, rfl⟩
  | remove uuid' =>
      rw [Action.perform, localRemove, recordRemove_added, recordRemove_removed, lookup_offerAt,
        if_neg (show uuid ≠ uuid' from h)]
      exact ⟨rfl, rfl⟩

/-! ## The operation with the largest stamp decides -/

section Last

variable {w : CrdtWhiteboard} {ops : Finset Op}

/-- The entry of the last stroke added is stored, and no removal hides it. -/
theorem shows_add (h : Reflects w ops) (huniq : Set.InjOn Op.stamp (ops : Set Op)) {e : AddEntry}
    (he : Op.add e ∈ ops)
    (hlast : ∀ op ∈ ops, opUuid op = e.stroke.uuid → op.stamp ≤ e.stamp) :
    w.added.lookup e.stroke.uuid = some e ∧ w.isVisible e.stroke.uuid = true := by
  obtain ⟨e', hlook, ⟨he', huuid'⟩, hle⟩ :=
    (h.added e.stroke.uuid).exists_of_mem (e := e) ⟨he, rfl⟩
  have hstamp : e'.stamp = e.stamp := le_antisymm (hlast _ he' huuid') hle
  obtain rfl : e' = e := Op.add.inj (huniq he' he hstamp)
  refine ⟨hlook, ?_⟩
  rw [isVisible, hlook]
  dsimp only
  cases hrem : w.removed.lookup e'.stroke.uuid with
  | none => rfl
  | some r =>
      -- a removal with the same stamp would be the same operation
      have hr := h.mem_removed hrem
      have hne : r.stamp ≠ e'.stamp := fun heq => by cases huniq hr he heq
      exact (lwwWins_iff _ _ _ _).2 (lt_of_le_of_ne (hlast _ hr rfl) hne)

/-- Whatever stroke is stored, the last removal hides it. -/
theorem shows_remove (h : Reflects w ops) {uuid : String} {r : RemoveEntry}
    (hr : Op.remove uuid r ∈ ops)
    (hlast : ∀ op ∈ ops, opUuid op = uuid → op.stamp ≤ r.stamp) :
    w.isVisible uuid = false := by
  rw [isVisible]
  cases hadd : w.added.lookup uuid with
  | none => rfl
  | some e =>
      obtain ⟨r', hrem, -, hlater⟩ := (h.removed uuid).exists_of_mem hr
      have hle : e.stamp ≤ r'.stamp :=
        (hlast _ (h.mem_added hadd) (w.keyed uuid e hadd)).trans hlater
      rw [hrem]
      exact Bool.eq_false_iff.2 fun hwins =>
        absurd ((lwwWins_iff _ _ _ _).1 hwins) (not_lt.2 hle)

/-- The last action on a stroke decides what is shown. -/
theorem shows_of_last (h : Reflects w ops) (huniq : Set.InjOn Op.stamp (ops : Set Op)) (a : Action)
    {ts : UInt64} {peerId : String} (hop : a.op ts peerId ∈ ops)
    (hlast : ∀ op ∈ ops, opUuid op = a.uuid → op.stamp ≤ stampOf ts peerId)
    (order : IterOrder String AddEntry) : strokesOf w order a.uuid = a.shown := by
  rw [strokesOf_eq]
  cases a with
  | add s =>
      obtain ⟨hlook, hvis⟩ := shows_add h huniq hop hlast
      rw [Action.uuid, hvis, hlook]
      rfl
  | remove uuid =>
      rw [Action.uuid, shows_remove h hop hlast]
      rfl

end Last

/-! ## Clocks are never behind -/

section Clock

/-- Every operation that is incorporated is covered by some entry. -/
theorem exists_timestamp {w : CrdtWhiteboard} {ops : Finset Op} (h : Reflects w ops) {op : Op}
    (hop : op ∈ ops) : ∃ ts ∈ w.timestamps, op.ts.toNat ≤ ts.toNat := by
  cases op with
  | add e =>
      obtain ⟨e', hlook, -, hle⟩ := (h.added e.stroke.uuid).exists_of_mem (e := e) ⟨hop, rfl⟩
      exact ⟨e'.ts, Or.inl ⟨_, e', hlook, rfl⟩, ts_le_of_stampOf_le hle⟩
  | remove uuid r =>
      obtain ⟨r', hlook, -, hle⟩ := (h.removed uuid).exists_of_mem hop
      exact ⟨r'.ts, Or.inr ⟨_, r', hlook, rfl⟩, ts_le_of_stampOf_le hle⟩

/-- No replica has incorporated an operation that its clock is behind. -/
def NotBehind (net : Net ι) : Prop :=
  ∀ i, ∀ op ∈ net.seen i, op.ts.toNat ≤ (net.board i).lamportTs.toNat

variable [DecidableEq ι] {peerId : ι → String} {n : ℕ} {net : Net ι}

/-- A clock that goes up, and operations up to it. -/
theorem NotBehind.update (h : NotBehind net) (i : ι) {w : CrdtWhiteboard} {ops : Finset Op}
    (hge : (net.board i).lamportTs.toNat ≤ w.lamportTs.toNat)
    (hops : ∀ op ∈ ops, op.ts.toNat ≤ w.lamportTs.toNat) : NotBehind (net.update i w ops) := by
  intro j op hop
  by_cases hj : j = i
  · subst hj
    simp only [Net.update, Function.update_self] at hop ⊢
    rcases Finset.mem_union.1 hop with hold | hnew
    · exact (h j op hold).trans hge
    · exact hops op hnew
  · simp only [Net.update, Function.update_of_ne hj] at hop ⊢
    exact h j op hop

theorem perform_lamportTs (w : CrdtWhiteboard) (a : Action) :
    (a.perform w).lamportTs = w.tick.lamportTs := by
  cases a with
  | add s => exact w.localAdd_lamportTs s
  | remove uuid => exact w.localRemove_lamportTs uuid

/-- The step of an action. -/
theorem step_event (net : Net ι) (i : ι) (a : Action) :
    net.step (a.event i) = net.produce i (a.perform (net.board i))
      (a.op (a.perform (net.board i)).lamportTs (a.perform (net.board i)).peerId) := by
  cases a with
  | add s => rfl
  | remove uuid => rfl

theorem op_ts (a : Action) (ts : UInt64) (p : String) : (a.op ts p).ts = ts := by
  cases a with
  | add s => rfl
  | remove uuid => rfl

theorem op_peerId (a : Action) (ts : UInt64) (p : String) : (a.op ts p).peerId = p := by
  cases a with
  | add s => rfl
  | remove uuid => rfl

theorem NotBehind.perform (h : NotBehind net) (hc : Consistent peerId n net) (hn : n + 1 < 2 ^ 64)
    (i : ι) (a : Action) : NotBehind (net.step (a.event i)) := by
  have hclock := hc.clock i
  rw [step_event]
  refine NotBehind.update h i ?_ ?_
  · rw [perform_lamportTs, tick_lamportTs _ (by omega)]
    exact Nat.le_succ _
  · intro op hop
    rw [Finset.mem_singleton.1 hop, op_ts]

theorem NotBehind.step (h : NotBehind net) (hc : Consistent peerId n net) (hn : n + 1 < 2 ^ 64)
    (e : Event ι) (he : e.Enabled net) : NotBehind (net.step e) := by
  cases e with
  | localAdd i s => exact h.perform hc hn i (.add s)
  | localRemove i uuid => exact h.perform hc hn i (.remove uuid)
  | deliver i op =>
      have hts := hc.ts_le op he
      have hpasses := (net.board i).updateClock_passes op.ts (by omega)
      rw [← receive_lamportTs] at hpasses
      refine h.update i hpasses.le fun op' hop' => ?_
      rw [Finset.mem_singleton.1 hop']
      exact (hpasses.lt op.ts rfl).le
  | merge i j addOrder removeOrder =>
      -- the other replica holds, for each operation it has incorporated, an entry at least as late
      have hpasses := (net.board i).merge_passes (net.board j) addOrder removeOrder fun ts hts =>
        Nat.lt_of_le_of_lt (Nat.succ_le_succ (hc.timestamps_le j ts hts)) hn
      refine h.update i hpasses.le fun op hop => ?_
      obtain ⟨ts, hts, hle⟩ := exists_timestamp (hc.reflects j) hop
      exact hle.trans (hpasses.lt ts hts).le

/-- In every run no clock is behind what its peer has seen. -/
theorem NotBehind.run (hinj : Function.Injective peerId) (evs : List (Event ι)) (h : NotBehind net)
    (hc : Consistent peerId n net) (hlen : n + evs.length < 2 ^ 64)
    (hen : Along Net.step (fun net e => Event.Enabled net e) net evs) :
    NotBehind (run Net.step net evs) := by
  induction evs generalizing n net with
  | nil => exact h
  | cons e evs ih =>
      rw [List.length_cons] at hlen
      exact ih (h.step hc (by omega) e hen.1) (hc.step hinj (by omega) e hen.1) (by omega) hen.2

end Clock

/-! ## In a run -/

section Run

variable [DecidableEq ι] {peerId : ι → String} {n : ℕ} {net : Net ι}

/-- What a replica has incorporated stays incorporated. -/
theorem seen_run (net : Net ι) (i : ι) (evs : List (Event ι)) :
    net.seen i ⊆ (run Net.step net evs).seen i := by
  induction evs generalizing net with
  | nil => exact Finset.Subset.refl _
  | cons e evs ih =>
      refine Finset.Subset.trans ?_ (ih (net.step e))
      have hupdate (j : ι) (ops : Finset Op) :
          net.seen i ⊆ Function.update net.seen j (net.seen j ∪ ops) i := by
        by_cases hj : i = j
        · subst hj
          rw [Function.update_self]
          exact Finset.subset_union_left
        · rw [Function.update_of_ne hj]
      cases e with
      | localAdd j s => exact hupdate j _
      | localRemove j uuid => exact hupdate j _
      | deliver j op => exact hupdate j _
      | merge j k addOrder removeOrder => exact hupdate j _

omit [DecidableEq ι] in
/-- In a state of a run, the operation of a replica with the largest stamp for its uuid decides. -/
theorem shows_of_seen (hc : Consistent peerId n net) (i : ι) (a : Action) {ts : UInt64}
    {p : String} (hop : a.op ts p ∈ net.seen i)
    (hlast : ∀ op ∈ net.seen i, opUuid op = a.uuid → op.stamp ≤ stampOf ts p)
    (order : IterOrder String AddEntry) : strokesOf (net.board i) order a.uuid = a.shown := by
  refine shows_of_last (hc.reflects i) (fun op hop op' hop' => ?_) a hop hlast order
  exact hc.unique (hc.logged i hop) (hc.logged i hop')

/-- A new action has the largest stamp of all operations of its replica. -/
theorem stamp_le_perform (hc : Consistent peerId n net) (h : NotBehind net) (hn : n + 1 < 2 ^ 64)
    (i : ι) (a : Action) :
    ∀ op ∈ (net.step (a.event i)).seen i, op.stamp ≤
      stampOf ((net.step (a.event i)).board i).lamportTs
        ((net.step (a.event i)).board i).peerId := by
  have hclock := hc.clock i
  intro op hop
  rw [step_event] at hop ⊢
  simp only [Net.produce, Net.update, Function.update_self, Finset.mem_union,
    Finset.mem_singleton] at hop ⊢
  rcases hop with hold | rfl
  · have hle := h i op hold
    apply le_of_lt
    rw [Op.stamp, stampOf_lt_iff, perform_lamportTs, tick_lamportTs _ (by omega)]
    exact Or.inl (Nat.lt_succ_of_le hle)
  · rw [Op.stamp, op_ts, op_peerId]

/-- In every run of replicas with different peer ids, an action of replica `i` is followed by a
whiteboard that shows the stroke just added, and nothing of a stroke just removed, while everything
about the other uuids is as before. It stays so as long as the replica has incorporated no operation
on that uuid with a larger stamp. -/
theorem own_action (peerId : ι → String) (hinj : Function.Injective peerId)
    (evs later : List (Event ι)) (i : ι) (a : Action)
    (hlen : (evs ++ a.event i :: later).length < 2 ^ 64 - 1)
    (hen : Along Net.step (fun net e => Event.Enabled net e) (Net.init peerId)
      (evs ++ a.event i :: later)) :
    let before := run Net.step (Net.init peerId) evs
    let after := before.step (a.event i)
    let last := run Net.step after later
    (∀ order, strokesOf (after.board i) order a.uuid = a.shown) ∧
      (∀ uuid ≠ a.uuid, (after.board i).isVisible uuid = (before.board i).isVisible uuid ∧
        ∀ order order', strokesOf (after.board i) order uuid =
          strokesOf (before.board i) order' uuid) ∧
      ((∀ op ∈ last.seen i, opUuid op = a.uuid →
          op.stamp ≤ stampOf (after.board i).lamportTs (after.board i).peerId) →
        ∀ order, strokesOf (last.board i) order a.uuid = a.shown) := by
  intro before after last
  rw [List.length_append, List.length_cons] at hlen
  rw [along_append, along_cons] at hen
  obtain ⟨henBefore, henAction, henLater⟩ := hen
  have hbefore := (consistent_init peerId).run hinj evs (by omega) henBefore
  -- the invariants after each part of the run
  have hafter : Consistent peerId (0 + evs.length + 1) after :=
    hbefore.step hinj (by omega) _ henAction
  have hlast : Consistent peerId (0 + evs.length + 1 + later.length) last :=
    hafter.run hinj later (by omega) henLater
  have hnotBehind : NotBehind before :=
    NotBehind.run hinj evs (fun j op hop => absurd hop (Finset.notMem_empty op))
      (consistent_init peerId) (by omega) henBefore
  have hboard : after.board i = a.perform (before.board i) := by
    change (before.step (a.event i)).board i = _
    rw [step_event]
    exact Function.update_self _ _ _
  -- the operation of the action is among those incorporated
  have hop : a.op (after.board i).lamportTs (after.board i).peerId ∈ after.seen i := by
    change _ ∈ (before.step (a.event i)).seen i
    rw [hboard, step_event]
    simp only [Net.produce, Net.update, Function.update_self, Finset.mem_union,
      Finset.mem_singleton, or_true]
  refine ⟨?_, fun uuid hne => ?_, fun hlargest => ?_⟩
  · -- its stamp is larger than any that the replica has seen
    have hlargest := stamp_le_perform hbefore hnotBehind (by omega) i a
    exact shows_of_seen hafter i a hop fun op hop _ => hlargest op hop
  · -- the action edits the entries of its own uuid only
    obtain ⟨hadd, hrem⟩ := perform_other (before.board i) a hne
    rw [← hboard] at hadd hrem
    exact ⟨isVisible_congr hadd hrem, strokesOf_congr hadd hrem⟩
  · exact shows_of_seen hlast i a (seen_run after i later hop) hlargest

/-- `A` draws a stroke, and `B` receives it and erases it; `A` has received the removal and draws
another stroke at the end. -/
theorem own_action_twoPeers :
    let before := run Net.step (Net.init twoPeers)
      [.localAdd true { uuid := "s1" }, .deliver false (.add ⟨{ uuid := "s1" }, 1, "A"⟩)]
    let after := before.step (.localRemove false "s1")
    let last := run Net.step after
      [.deliver true (.remove "s1" ⟨3, "B"⟩), .localAdd true { uuid := "s2" }]
    (∀ order, strokesOf (after.board false) order "s1" = []) ∧
      ∀ order, strokesOf (last.board false) order "s1" = [] := by
  intro before after last
  have haction := own_action twoPeers (by decide)
    [.localAdd true { uuid := "s1" }, .deliver false (.add ⟨{ uuid := "s1" }, 1, "A"⟩)]
    [.deliver true (.remove "s1" ⟨3, "B"⟩), .localAdd true { uuid := "s2" }] false (.remove "s1")
    (by decide) ⟨trivial, show _ ∈ (_ : Finset Op) by decide, trivial,
      show _ ∈ (_ : Finset Op) by decide, trivial, trivial⟩
  exact ⟨haction.1, haction.2.2 (by decide)⟩

end Run

end CppMeet.Whiteboard.OwnActions
