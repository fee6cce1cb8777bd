import CppMeet.Lib.Run
import CppMeet.Whiteboard.Crdt
import Mathlib.Data.Finset.Insert
import Mathlib.Data.Finset.Lattice.Basic

/-!
# Replicated whiteboards converge

A network of whiteboards, one for each index in `ι`. A local edit produces an operation: the entry
with its timestamp and the id of its peer. Operations travel as messages, which may be lost,
delivered late, in any order and more than once, and a replica may merge the current state of
another one. Next to each whiteboard the network keeps the set of the operations it has
incorporated, which no replica reads.

`Consistent` is the invariant of every run: the clocks bound the timestamps, stamps identify
operations, and each register of a whiteboard holds the latest of the entries that were
incorporated for its uuid. Two replicas that have incorporated the same operations therefore hold
the same maps (`replicas_converge`).
-/

set_option autoImplicit false

namespace CppMeet.Whiteboard.Replicas

open CppMeet.Lib.HashMap CppMeet.Lib.LastWriter CppMeet.Lib.Run CppMeet.Whiteboard.Crdt

/-- A local operation, as it is sent to the other replicas. -/
inductive Op where
  | add (e : AddEntry)
  | remove (uuid : String) (e : RemoveEntry)
  deriving DecidableEq

/-- The clock value an entry was made under. -/
def Op.ts : Op → UInt64
  | .add e => e.ts
  | .remove _ e => e.ts

/-- The peer that made an entry. -/
def Op.peerId : Op → String
  | .add e => e.peerId
  | .remove _ e => e.peerId

/-- What decides between two entries on a stroke. -/
def Op.stamp (op : Op) : ℕ ×ₗ String := stampOf op.ts op.peerId

/-- Incorporating an operation received from another replica. -/
def receive (w : CrdtWhiteboard) : Op → CrdtWhiteboard
  | .add e => w.remoteAdd e.stroke e.ts e.peerId
  | .remove uuid e => w.remoteRemove uuid e.ts e.peerId

theorem receive_lamportTs (w : CrdtWhiteboard) (op : Op) :
    (receive w op).lamportTs = (w.updateClock op.ts).lamportTs := by
  cases op with
  | add e => exact CrdtWhiteboard.recordAdd_lamportTs _ _ _ _
  | remove uuid e => exact CrdtWhiteboard.recordRemove_lamportTs _ _ _ _

theorem receive_peerId (w : CrdtWhiteboard) (op : Op) : (receive w op).peerId = w.peerId := by
  cases op with
  | add e => simp [receive, CrdtWhiteboard.remoteAdd]
  | remove uuid e => simp [receive, CrdtWhiteboard.remoteRemove]

universe u

variable {ι : Type u}

/-- The replicas, the operations produced so far, and for each replica the operations it has
incorporated. -/
structure Net (ι : Type u) where
  board : ι → CrdtWhiteboard
  log : Finset Op
  seen : ι → Finset Op

/-- What peers do: act, receive an entry, or merge a whiteboard. -/
inductive Event (ι : Type u) where
  | localAdd (i : ι) (s : Stroke)
  | localRemove (i : ι) (uuid : String)
  | deliver (i : ι) (op : Op)
  | merge (i j : ι) (addOrder : IterOrder String AddEntry)
      (removeOrder : IterOrder String RemoveEntry)

/-- Only operations that some replica has produced are delivered. -/
def Event.Enabled (net : Net ι) : Event ι → Prop
  | .deliver _ op => op ∈ net.log
  | _ => True

/-- Every peer has an empty whiteboard, and no entry has been made. -/
def Net.init (peerId : ι → String) : Net ι where
  board i := { peerId := peerId i }
  log := ∅
  seen _ := ∅

variable [DecidableEq ι]

/-- Replica `i` moves to the whiteboard `w` and has incorporated `ops` more. -/
def Net.update (net : Net ι) (i : ι) (w : CrdtWhiteboard) (ops : Finset Op) : Net ι where
  board := Function.update net.board i w
  log := net.log
  seen := Function.update net.seen i (net.seen i ∪ ops)

/-- Replica `i` moves to the whiteboard `w` by the local operation `op`. -/
def Net.produce (net : Net ι) (i : ι) (w : CrdtWhiteboard) (op : Op) : Net ι :=
  { net.update i w {op} with log := insert op net.log }

/-- One event; the entries it makes are logged, and those it brings are seen. -/
def Net.step (net : Net ι) : Event ι → Net ι
  | .localAdd i s =>
      let w := (net.board i).localAdd s
      net.produce i w (.add ⟨s, w.lamportTs, w.peerId⟩)
  | .localRemove i uuid =>
      let w := (net.board i).localRemove uuid
      net.produce i w (.remove uuid ⟨w.lamportTs, w.peerId⟩)
  | .deliver i op => net.update i (receive (net.board i) op) {op}
  | .merge i j addOrder removeOrder =>
      net.update i ((net.board i).merge (net.board j) addOrder removeOrder) (net.seen j)

/-! ## The invariant -/

/-- The added entries of `uuid` among the operations `ops`. -/
def addsOf (ops : Finset Op) (uuid : String) : Set AddEntry :=
  {e | Op.add e ∈ ops ∧ e.stroke.uuid = uuid}

/-- The removals of `uuid` among the operations `ops`. -/
def removesOf (ops : Finset Op) (uuid : String) : Set RemoveEntry :=
  {e | Op.remove uuid e ∈ ops}

/-- The whiteboard holds, for each uuid, the latest of the entries in `ops`. -/
structure Reflects (w : CrdtWhiteboard) (ops : Finset Op) : Prop where
  added : ∀ uuid, Latest AddEntry.stamp (addsOf ops uuid) (w.added.lookup uuid)
  removed : ∀ uuid, Latest RemoveEntry.stamp (removesOf ops uuid) (w.removed.lookup uuid)

/-- What holds after `n` steps of a run. -/
structure Consistent (peerId : ι → String) (n : ℕ) (net : Net ι) : Prop where
  peer : ∀ i, (net.board i).peerId = peerId i
  clock : ∀ i, (net.board i).lamportTs.toNat ≤ n
  origin : ∀ op ∈ net.log, ∃ i, op.peerId = peerId i ∧ op.ts.toNat ≤ (net.board i).lamportTs.toNat
  unique : Set.InjOn Op.stamp (net.log : Set Op)
  logged : ∀ i, net.seen i ⊆ net.log
  reflects : ∀ i, Reflects (net.board i) (net.seen i)

theorem addsOf_union (ops ops' : Finset Op) (uuid : String) :
    addsOf (ops ∪ ops') uuid = addsOf ops uuid ∪ addsOf ops' uuid := by
  ext e
  simp only [addsOf, Finset.mem_union, Set.mem_ofPred_eq, Set.mem_union, or_and_right]

theorem removesOf_union (ops ops' : Finset Op) (uuid : String) :
    removesOf (ops ∪ ops') uuid = removesOf ops uuid ∪ removesOf ops' uuid := by
  ext e
  simp only [removesOf, Finset.mem_union, Set.mem_ofPred_eq, Set.mem_union]

theorem addsOf_union_add (ops : Finset Op) (e : AddEntry) (uuid : String) :
    addsOf (ops ∪ {.add e}) uuid =
      if uuid = e.stroke.uuid then insert e (addsOf ops uuid) else addsOf ops uuid := by
  ext x
  by_cases hu : uuid = e.stroke.uuid
  · rw [if_pos hu]
    simp only [addsOf, Finset.mem_union, Finset.mem_singleton, Op.add.injEq, Set.mem_ofPred_eq,
      Set.mem_insert_iff]
    constructor
    · rintro ⟨hx | rfl, hxu⟩
      · exact Or.inr ⟨hx, hxu⟩
      · exact Or.inl rfl
    · rintro (rfl | ⟨hx, hxu⟩)
      · exact ⟨Or.inr rfl, hu.symm⟩
      · exact ⟨Or.inl hx, hxu⟩
  · rw [if_neg hu]
    simp only [addsOf, Finset.mem_union, Finset.mem_singleton, Op.add.injEq, Set.mem_ofPred_eq]
    constructor
    · rintro ⟨hx | rfl, hxu⟩
      · exact ⟨hx, hxu⟩
      · exact absurd hxu.symm hu
    · rintro ⟨hx, hxu⟩
      exact ⟨Or.inl hx, hxu⟩

theorem removesOf_union_remove (ops : Finset Op) (uuid' : String) (e : RemoveEntry)
    (uuid : String) :
    removesOf (ops ∪ {.remove uuid' e}) uuid =
      if uuid = uuid' then insert e (removesOf ops uuid) else removesOf ops uuid := by
  ext x
  by_cases hu : uuid = uuid'
  · simp [removesOf, hu]
  · simp [removesOf, hu]

theorem addsOf_union_remove (ops : Finset Op) (uuid' : String) (e : RemoveEntry)
    (uuid : String) : addsOf (ops ∪ {.remove uuid' e}) uuid = addsOf ops uuid := by
  ext x
  simp [addsOf]

theorem removesOf_union_add (ops : Finset Op) (e : AddEntry) (uuid : String) :
    removesOf (ops ∪ {.add e}) uuid = removesOf ops uuid := by
  ext x
  simp [removesOf]

/-! ## One update of a whiteboard -/

section Reflects

variable {w : CrdtWhiteboard} {ops ops' : Finset Op}

/-- Recording an added stroke incorporates its entry. -/
theorem Reflects.recordAdd (h : Reflects w ops) {w' : CrdtWhiteboard} (e : AddEntry)
    (hadd : w'.added = w.added) (hrem : w'.removed = w.removed) :
    Reflects (w'.recordAdd e.stroke e.ts e.peerId) (ops ∪ {.add e}) where
  added uuid := by
    rw [CrdtWhiteboard.recordAdd_added, lookup_offerAt, addsOf_union_add, hadd]
    by_cases hu : uuid = e.stroke.uuid
    · rw [if_pos hu, if_pos hu, ← hu]
      exact (h.added uuid).offer e
    · rw [if_neg hu, if_neg hu]
      exact h.added uuid
  removed uuid := by
    rw [CrdtWhiteboard.recordAdd_removed, removesOf_union_add, hrem]
    exact h.removed uuid

/-- Recording a removal incorporates its entry. -/
theorem Reflects.recordRemove (h : Reflects w ops) {w' : CrdtWhiteboard} (uuid' : String)
    (e : RemoveEntry) (hadd : w'.added = w.added) (hrem : w'.removed = w.removed) :
    Reflects (w'.recordRemove uuid' e.ts e.peerId) (ops ∪ {.remove uuid' e}) where
  added uuid := by
    rw [CrdtWhiteboard.recordRemove_added, addsOf_union_remove, hadd]
    exact h.added uuid
  removed uuid := by
    rw [CrdtWhiteboard.recordRemove_removed, lookup_offerAt, removesOf_union_remove, hrem]
    by_cases hu : uuid = uuid'
    · rw [if_pos hu, if_pos hu, ← hu]
      exact (h.removed uuid).offer e
    · rw [if_neg hu, if_neg hu]
      exact h.removed uuid

theorem Reflects.receive (h : Reflects w ops) (op : Op) :
    Reflects (Replicas.receive w op) (ops ∪ {op}) := by
  cases op with
  | add e => exact h.recordAdd e (w.updateClock_added e.ts) (w.updateClock_removed e.ts)
  | remove uuid e =>
      exact h.recordRemove uuid e (w.updateClock_added e.ts) (w.updateClock_removed e.ts)

/-- Merging incorporates what the other whiteboard has incorporated. -/
theorem Reflects.merge (h : Reflects w ops) {other : CrdtWhiteboard} (h' : Reflects other ops')
    (addOrder : IterOrder String AddEntry) (removeOrder : IterOrder String RemoveEntry) :
    Reflects (w.merge other addOrder removeOrder) (ops ∪ ops') where
  added uuid := by
    rw [CrdtWhiteboard.merge_added, addsOf_union]
    exact (h.added uuid).join (h'.added uuid)
  removed uuid := by
    rw [CrdtWhiteboard.merge_removed, removesOf_union]
    exact (h.removed uuid).join (h'.removed uuid)

/-- Every entry of the whiteboard was incorporated. -/
theorem Reflects.mem_added (h : Reflects w ops) {uuid : String} {e : AddEntry}
    (he : w.added.lookup uuid = some e) : Op.add e ∈ ops := by
  have hl := h.added uuid
  rw [he] at hl
  exact hl.1.1

theorem Reflects.mem_removed (h : Reflects w ops) {uuid : String} {e : RemoveEntry}
    (he : w.removed.lookup uuid = some e) : Op.remove uuid e ∈ ops := by
  have hl := h.removed uuid
  rw [he] at hl
  exact hl.1

/-- Where stamps identify operations, what was incorporated determines both maps. -/
theorem Reflects.unique (h : Reflects w ops) {other : CrdtWhiteboard} (h' : Reflects other ops)
    (hinj : Set.InjOn Op.stamp (ops : Set Op)) :
    w.added = other.added ∧ w.removed = other.removed := by
  refine ⟨Finmap.ext_lookup fun uuid => ?_, Finmap.ext_lookup fun uuid => ?_⟩
  · refine (h.added uuid).unique (fun e he e' he' hst => ?_) (h'.added uuid)
    have hop : Op.add e = Op.add e' := hinj he.1 he'.1 hst
    exact Op.add.inj hop
  · refine (h.removed uuid).unique (fun e he e' he' hst => ?_) (h'.removed uuid)
    have hop : Op.remove uuid e = Op.remove uuid e' := hinj he he' hst
    exact (Op.remove.inj hop).2

end Reflects

/-! ## Steps and runs -/

section Consistent

variable {peerId : ι → String} {n : ℕ} {net : Net ι}

/-- A replica that moves forward, while the log gains operations of that replica only. -/
theorem Consistent.move (hc : Consistent peerId n net) (i : ι) {w : CrdtWhiteboard}
    {ops log : Finset Op} (hpeer : w.peerId = (net.board i).peerId)
    (hge : (net.board i).lamportTs.toNat ≤ w.lamportTs.toNat) (hle : w.lamportTs.toNat ≤ n + 1)
    (hlog : net.log ⊆ log) (hops : ops ⊆ log) (hrefl : Reflects w (net.seen i ∪ ops))
    (horigin : ∀ op ∈ log, op ∈ net.log ∨ op.peerId = peerId i ∧ op.ts.toNat ≤ w.lamportTs.toNat)
    (huniq : Set.InjOn Op.stamp (log : Set Op)) :
    Consistent peerId (n + 1) { net.update i w ops with log := log } where
  peer := by
    apply (Function.forall_update_iff net.board fun j w => w.peerId = peerId j).2
    exact ⟨hpeer.trans (hc.peer i), fun j _ => hc.peer j⟩
  clock := by
    apply (Function.forall_update_iff net.board fun _ w => w.lamportTs.toNat ≤ n + 1).2
    exact ⟨hle, fun j _ => (hc.clock j).trans (Nat.le_succ n)⟩
  origin op hop := by
    rcases horigin op hop with hold | ⟨hp, hts⟩
    · obtain ⟨j, hp, hts⟩ := hc.origin op hold
      refine ⟨j, hp, ?_⟩
      -- stamps of this replica stay behind its clock, which only moves forward
      by_cases hj : j = i
      · subst hj
        simpa only [Net.update, Function.update_self] using hts.trans hge
      · simpa only [Net.update, Function.update_of_ne hj] using hts
    · -- the operations that the log gains are its own
      exact ⟨i, hp, by simpa only [Net.update, Function.update_self] using hts⟩
  unique := huniq
  logged := by
    apply (Function.forall_update_iff net.seen fun _ ops => ops ⊆ log).2
    exact ⟨Finset.union_subset ((hc.logged i).trans hlog) hops,
      fun j _ => (hc.logged j).trans hlog⟩
  reflects j := by
    by_cases hj : j = i
    · subst hj
      simpa only [Net.update, Function.update_self] using hrefl
    · simpa only [Net.update, Function.update_of_ne hj] using hc.reflects j

/-- Incorporating operations that are in the log. -/
theorem Consistent.update (hc : Consistent peerId n net) (i : ι) {w : CrdtWhiteboard}
    {ops : Finset Op} (hpeer : w.peerId = (net.board i).peerId)
    (hge : (net.board i).lamportTs.toNat ≤ w.lamportTs.toNat) (hle : w.lamportTs.toNat ≤ n + 1)
    (hops : ops ⊆ net.log) (hrefl : Reflects w (net.seen i ∪ ops)) :
    Consistent peerId (n + 1) (net.update i w ops) :=
  hc.move i hpeer hge hle (Finset.Subset.refl _) hops hrefl (fun _ hop => Or.inl hop) hc.unique

/-- A local operation has a timestamp above every earlier operation of its replica, and no other
replica has its peer id, so its stamp is new. -/
theorem Consistent.produce (hc : Consistent peerId n net) (hinj : Function.Injective peerId)
    (hn : n + 1 < 2 ^ 64) (i : ι) {w : CrdtWhiteboard} {op : Op}
    (hpeer : w.peerId = (net.board i).peerId)
    (hclock : w.lamportTs = (net.board i).tick.lamportTs) (hopts : op.ts = w.lamportTs)
    (hoppeer : op.peerId = w.peerId) (hrefl : Reflects w (net.seen i ∪ {op})) :
    Consistent peerId (n + 1) (net.produce i w op) := by
  have hci := hc.clock i
  have hts : w.lamportTs.toNat = (net.board i).lamportTs.toNat + 1 := by
    rw [hclock, CrdtWhiteboard.tick_lamportTs _ (by omega)]
  have hop : op.peerId = peerId i := by rw [hoppeer, hpeer, hc.peer]
  -- the clock of the replica has moved past all of its earlier operations
  have hfresh : ∀ op' ∈ net.log, op'.stamp ≠ op.stamp := by
    intro op' hop' hst
    obtain ⟨hts', hpeer'⟩ := stampOf_inj.1 hst
    obtain ⟨j, hj, hle⟩ := hc.origin op' hop'
    have hji : j = i := hinj (by rw [← hj, hpeer', hop])
    rw [hts', hopts, hts, hji] at hle
    omega
  refine hc.move i hpeer (by omega) (by omega) (Finset.subset_insert op net.log)
    (Finset.singleton_subset_iff.2 (Finset.mem_insert_self op net.log)) hrefl ?_ ?_
  · intro op' hop'
    rcases Finset.mem_insert.1 hop' with rfl | hold
    · exact Or.inr ⟨hop, by rw [hopts]⟩
    · exact Or.inl hold
  · intro a ha b hb hab
    rcases Finset.mem_insert.1 ha with rfl | haold
    · rcases Finset.mem_insert.1 hb with rfl | hbold
      · rfl
      · exact absurd hab.symm (hfresh b hbold)
    · rcases Finset.mem_insert.1 hb with rfl | hbold
      · exact absurd hab (hfresh a haold)
      · exact hc.unique haold hbold hab

omit [DecidableEq ι] in
/-- Timestamps of operations are bounded by the number of steps. -/
theorem Consistent.ts_le (hc : Consistent peerId n net) (op : Op) (hop : op ∈ net.log) :
    op.ts.toNat ≤ n := by
  obtain ⟨i, -, hle⟩ := hc.origin op hop
  exact hle.trans (hc.clock i)

omit [DecidableEq ι] in
/-- Every entry of a replica is an operation of the log. -/
theorem Consistent.timestamps_le (hc : Consistent peerId n net) (i : ι) :
    ∀ ts ∈ (net.board i).timestamps, ts.toNat ≤ n := by
  rintro ts (⟨uuid, e, he, rfl⟩ | ⟨uuid, e, he, rfl⟩)
  · exact hc.ts_le (.add e) (hc.logged i ((hc.reflects i).mem_added he))
  · exact hc.ts_le (.remove uuid e) (hc.logged i ((hc.reflects i).mem_removed he))

theorem Consistent.receive (hc : Consistent peerId n net) (hn : n + 1 < 2 ^ 64) (i : ι) {op : Op}
    (hop : op ∈ net.log) :
    Consistent peerId (n + 1) (net.update i (receive (net.board i) op) {op}) := by
  have hts := hc.ts_le op hop
  have hci := hc.clock i
  have hnat : (Replicas.receive (net.board i) op).lamportTs.toNat =
      max (net.board i).lamportTs.toNat (op.ts.toNat + 1) := by
    rw [receive_lamportTs, CrdtWhiteboard.updateClock_lamportTs _ _ (by omega)]
  exact hc.update i (receive_peerId _ op) (by omega) (by omega) (Finset.singleton_subset_iff.2 hop)
    ((hc.reflects i).receive op)

/-- One step. -/
theorem Consistent.step (hc : Consistent peerId n net) (hinj : Function.Injective peerId)
    (hn : n + 1 < 2 ^ 64) (e : Event ι) (he : e.Enabled net) :
    Consistent peerId (n + 1) (net.step e) := by
  cases e with
  | localAdd i s =>
      -- the operation is stamped with the new clock
      apply hc.produce hinj hn i (CrdtWhiteboard.localAdd_peerId _ s)
        (CrdtWhiteboard.localAdd_lamportTs _ s) rfl rfl
      conv_lhs => rw [CrdtWhiteboard.localAdd_eq]
      exact (hc.reflects i).recordAdd ⟨s, _, _⟩ (CrdtWhiteboard.tick_added _)
        (CrdtWhiteboard.tick_removed _)
  | localRemove i uuid =>
      apply hc.produce hinj hn i (CrdtWhiteboard.localRemove_peerId _ uuid)
        (CrdtWhiteboard.localRemove_lamportTs _ uuid) rfl rfl
      conv_lhs => rw [CrdtWhiteboard.localRemove_eq]
      exact (hc.reflects i).recordRemove uuid ⟨_, _⟩ (CrdtWhiteboard.tick_added _)
        (CrdtWhiteboard.tick_removed _)
  | deliver i op => exact hc.receive hn i he
  | merge i j addOrder removeOrder =>
      have hci := hc.clock i
      obtain ⟨hge, hle⟩ := (net.board i).merge_lamportTs (net.board j) addOrder removeOrder hn
        (by omega) (fun uuid e he => hc.timestamps_le j _ (Or.inl ⟨uuid, e, he, rfl⟩))
        (fun uuid e he => hc.timestamps_le j _ (Or.inr ⟨uuid, e, he, rfl⟩))
      exact hc.update i (CrdtWhiteboard.merge_peerId _ _ _ _) hge hle (hc.logged j)
        ((hc.reflects i).merge (hc.reflects j) addOrder removeOrder)

omit [DecidableEq ι] in
theorem consistent_init (peerId : ι → String) : Consistent peerId 0 (Net.init peerId) where
  peer _ := rfl
  clock _ := Nat.le_refl 0
  origin op hop := absurd hop (Finset.notMem_empty op)
  unique op hop := absurd hop (Finset.notMem_empty op)
  logged _ := Finset.Subset.refl _
  reflects i :=
    { added := fun uuid => by
        change addsOf ∅ uuid = ∅
        ext e
        simp [addsOf]
      removed := fun uuid => by
        change removesOf ∅ uuid = ∅
        ext e
        simp [removesOf] }

/-- A run that is too short to exhaust the 64-bit clock. -/
theorem Consistent.run (hinj : Function.Injective peerId) (evs : List (Event ι))
    (hc : Consistent peerId n net) (hlen : n + evs.length < 2 ^ 64)
    (hen : Along Net.step (fun net e => Event.Enabled net e) net evs) :
    Consistent peerId (n + evs.length) (run Net.step net evs) := by
  induction evs generalizing n net with
  | nil => exact hc
  | cons e evs ih =>
      rw [List.length_cons] at hlen
      have hstep := hc.step hinj (by omega) e hen.1
      have hrun := ih hstep (by omega) hen.2
      rw [List.length_cons, show n + (evs.length + 1) = n + 1 + evs.length by omega]
      exact hrun

end Consistent

/-- The visible strokes of two whiteboards with equal maps are the same, however the hash maps are
iterated. -/
theorem visibleStrokes_perm {w w' : CrdtWhiteboard} (hadd : w.added = w'.added)
    (hrem : w.removed = w'.removed) (order order' : IterOrder String AddEntry) :
    (w.visibleStrokes order).Perm (w'.visibleStrokes order') := by
  have hvis : w.isVisible = w'.isVisible := by
    funext uuid
    simp only [CrdtWhiteboard.isVisible, hadd, hrem]
  unfold CrdtWhiteboard.visibleStrokes
  rw [hvis, hadd]
  exact (((order w'.added).perm (order' w'.added)).filter _).map _

/-- Two replicas that have incorporated the same operations hold the same maps, and so show the
same strokes. -/
theorem replicas_converge (peerId : ι → String) (hinj : Function.Injective peerId)
    (evs : List (Event ι)) (hlen : evs.length < 2 ^ 64 - 1)
    (hen : Along Net.step (fun net e => Event.Enabled net e) (Net.init peerId) evs) (i j : ι)
    (hseen : (run Net.step (Net.init peerId) evs).seen i =
      (run Net.step (Net.init peerId) evs).seen j) :
    ((run Net.step (Net.init peerId) evs).board i).added =
        ((run Net.step (Net.init peerId) evs).board j).added ∧
      ((run Net.step (Net.init peerId) evs).board i).removed =
        ((run Net.step (Net.init peerId) evs).board j).removed ∧
      ∀ order order' : IterOrder String AddEntry,
        (((run Net.step (Net.init peerId) evs).board i).visibleStrokes order).Perm
          (((run Net.step (Net.init peerId) evs).board j).visibleStrokes order') := by
  have hc := (consistent_init peerId).run hinj evs (by omega) hen
  -- stamps identify the operations of the log
  have hinjSeen : Set.InjOn Op.stamp
      ((run Net.step (Net.init peerId) evs).seen j : Set Op) := fun a ha b hb =>
    hc.unique (hc.logged j ha) (hc.logged j hb)
  have hi := hc.reflects i
  rw [hseen] at hi
  obtain ⟨hadd, hrem⟩ := hi.unique (hc.reflects j) hinjSeen
  exact ⟨hadd, hrem, visibleStrokes_perm hadd hrem⟩

/-- The peers of a two-party session. -/
def twoPeers (b : Bool) : String := if b then "A" else "B"

/-- `A` draws, `B` draws and erases `A`'s stroke, `A` merges the state of `B`, and `B` receives
`A`'s stroke last. -/
noncomputable def twoPartySession : List (Event Bool) :=
  [.localAdd true { uuid := "s1" }, .localAdd false { uuid := "s2" }, .localRemove false "s1",
    .merge true false someVisits someVisits, .deliver false (.add ⟨{ uuid := "s1" }, 1, "A"⟩)]

theorem replicas_converge_twoPartySession :
    let net := run Net.step (Net.init twoPeers) twoPartySession
    (net.board true).added = (net.board false).added ∧
      (net.board true).removed = (net.board false).removed ∧
      ∀ order order' : IterOrder String AddEntry,
        ((net.board true).visibleStrokes order).Perm ((net.board false).visibleStrokes order') := by
  refine replicas_converge twoPeers (by decide) twoPartySession (by decide) ?_ true false ?_
  · exact ⟨trivial, trivial, trivial, trivial,
      show _ ∈ (_ : Finset Op) by decide, trivial⟩
  · decide

end CppMeet.Whiteboard.Replicas
