import CppMeet.Whiteboard.Replicas
import CppMeet.Whiteboard.StateJson

/-!
# Stamps under full-state synchronization

The network of whiteboards once more, now with a replica that may load the whole state of another
one by `parse_json(other.serialize_json())`. The log lists the local operations of all replicas, in
order and with repetition.

Loading also copies the peer id and the clock, so afterwards two replicas give out stamps under one
peer id. A local operation takes the stamp behind the clock of its replica, and that stamp stays
unique as long as every other replica with the same peer id is already past it (`OthersAhead`).
When all local operations are made in such states, no stamp occurs twice (`stamps_nodup`); when one
of them is not, the replica that lags behind can repeat its stamp (`repeats_of_behind`). Replicas
that load nobody else's state are never in that situation (`along_safe_of_own_loads`).
-/

set_option autoImplicit false

namespace CppMeet.Whiteboard.FullSync

open CppMeet.Lib.HashMap CppMeet.Lib.LastWriter CppMeet.Lib.Run CppMeet.Signaling.Document
open CppMeet.Whiteboard.Crdt CppMeet.Whiteboard.StateJson
open CppMeet.Whiteboard.Replicas (Op receive receive_lamportTs receive_peerId)

universe u

variable {ι : Type u}

/-- The replicas and the local operations so far. -/
structure Net (ι : Type u) where
  board : ι → CrdtWhiteboard
  log : List Op

/-- What peers do: act, receive an entry, merge a whiteboard, or load the serialized state of
another. -/
inductive Event (ι : Type u) where
  | localAdd (i : ι) (s : Stroke)
  | localRemove (i : ι) (uuid : String)
  | deliver (i : ι) (op : Op)
  | merge (i j : ι) (addOrder : IterOrder String AddEntry)
      (removeOrder : IterOrder String RemoveEntry)
  | load (i j : ι) (addOrder : IterOrder String AddEntry)
      (removeOrder : IterOrder String RemoveEntry)

/-- Every peer has an empty whiteboard of its own. -/
def Net.init (peerId : ι → String) : Net ι where
  board i := .ofPeer (peerId i)
  log := []

/-- Operations that were made are delivered, and the library reproduces the documents loaded. -/
def Enabled (lib : StateLib) (net : Net ι) : Event ι → Prop
  | .deliver _ op => op ∈ net.log
  | .load _ j addOrder removeOrder =>
      lib.Reproduces (stateJson lib (net.board j) addOrder removeOrder)
  | _ => True

variable [DecidableEq ι]

/-- Peer `i` has another whiteboard. -/
def Net.set (net : Net ι) (i : ι) (w : CrdtWhiteboard) : Net ι :=
  { net with board := Function.update net.board i w }

/-- Replica `i` moves to the whiteboard `w` by the local operation `op`. -/
def Net.produce (net : Net ι) (i : ι) (w : CrdtWhiteboard) (op : Op) : Net ι :=
  { net.set i w with log := net.log ++ [op] }

/-- One event; the entries it makes are logged. -/
def Net.step (lib : StateLib) (net : Net ι) : Event ι → Net ι
  | .localAdd i s =>
      let w := (net.board i).localAdd s
      net.produce i w (.add ⟨s, w.lamportTs, w.peerId⟩)
  | .localRemove i uuid =>
      let w := (net.board i).localRemove uuid
      net.produce i w (.remove uuid ⟨w.lamportTs, w.peerId⟩)
  | .deliver i op => net.set i (receive (net.board i) op)
  | .merge i j addOrder removeOrder =>
      net.set i ((net.board i).merge (net.board j) addOrder removeOrder)
  | .load i j addOrder removeOrder =>
      net.set i (parseJson lib (net.board i)
        (serializeJson lib (net.board j) addOrder removeOrder)).1

/-- Every other replica that carries the peer id of `i` is ahead of `i`. -/
def OthersAhead (net : Net ι) (i : ι) : Prop :=
  ∀ j, j ≠ i → (net.board j).peerId = (net.board i).peerId →
    (net.board i).lamportTs.toNat < (net.board j).lamportTs.toNat

/-- Local operations are made where the others are ahead. -/
def Safe (net : Net ι) : Event ι → Prop
  | .localAdd i _ => OthersAhead net i
  | .localRemove i _ => OthersAhead net i
  | _ => True

/-! ## Timestamps in a whiteboard -/

/-- No entry of the whiteboard has a timestamp above `n`. -/
abbrev StampsUpTo (n : ℕ) : CrdtWhiteboard → Prop :=
  CrdtWhiteboard.AllEntries (fun e => e.ts.toNat ≤ n) fun e => e.ts.toNat ≤ n

theorem StampsUpTo.mono {n m : ℕ} {w : CrdtWhiteboard} (h : StampsUpTo n w) (hnm : n ≤ m) :
    StampsUpTo m w :=
  h.imp (fun _ hts => hts.trans hnm) fun _ hts => hts.trans hnm

/-- An entry under the bound keeps the stamps under it. -/
theorem StampsUpTo.receive {n : ℕ} {w : CrdtWhiteboard} (h : StampsUpTo n w) (op : Op)
    (hop : op.ts.toNat ≤ n) : StampsUpTo n (Replicas.receive w op) := by
  cases op with
  | add e => exact h.remoteAdd hop
  | remove uuid e => exact h.remoteRemove uuid hop

/-- Passing the floats through `double` leaves the timestamps alone. -/
theorem StampsUpTo.of_reload {n : ℕ} {lib : StateLib} {w w' : CrdtWhiteboard}
    (h : StampsUpTo n w)
    (hadded : ∀ uuid, w'.added.lookup uuid = (w.added.lookup uuid).map (reload lib))
    (hremoved : w'.removed = w.removed) : StampsUpTo n w' where
  added := by
    intro uuid e he
    rw [hadded] at he
    obtain ⟨e', he', rfl⟩ := Option.map_eq_some_iff.1 he
    exact h.added uuid e' he'
  removed := by
    rw [hremoved]
    exact h.removed

/-! ## The invariant -/

/-- What holds after `n` steps: a replica is past every operation that was made under its present
peer id. -/
structure Ordered (n : ℕ) (net : Net ι) : Prop where
  clock : ∀ i, (net.board i).lamportTs.toNat ≤ n
  stamps : ∀ i, StampsUpTo n (net.board i)
  logged : ∀ op ∈ net.log, op.ts.toNat ≤ n
  past : ∀ op ∈ net.log, ∀ i, op.peerId = (net.board i).peerId →
    op.ts.toNat ≤ (net.board i).lamportTs.toNat
  unique : (net.log.map Op.stamp).Nodup

omit [DecidableEq ι] in
/-- At the beginning no stamp has been given. -/
theorem ordered_init (peerId : ι → String) : Ordered 0 (Net.init peerId) where
  clock := fun _ => Nat.le_refl 0
  stamps := fun i => CrdtWhiteboard.AllEntries.ofPeer (peerId i)
  logged := fun _ hop => absurd hop List.not_mem_nil
  past := fun _ hop => absurd hop List.not_mem_nil
  unique := List.nodup_nil

section Ordered

variable {n : ℕ} {net : Net ι}

/-- A step of replica `i` that makes no operation. -/
theorem Ordered.set (h : Ordered n net) (i : ι) {w : CrdtWhiteboard}
    (hclock : w.lamportTs.toNat ≤ n + 1) (hstamps : StampsUpTo (n + 1) w)
    (hpast : ∀ op ∈ net.log, op.peerId = w.peerId → op.ts.toNat ≤ w.lamportTs.toNat) :
    Ordered (n + 1) (net.set i w) where
  clock := by
    apply (Function.forall_update_iff net.board fun _ w => w.lamportTs.toNat ≤ n + 1).2
    exact ⟨hclock, fun k _ => (h.clock k).trans (Nat.le_succ n)⟩
  stamps := by
    apply (Function.forall_update_iff net.board fun _ w => StampsUpTo (n + 1) w).2
    exact ⟨hstamps, fun k _ => (h.stamps k).mono (Nat.le_succ n)⟩
  logged := fun op hop => (h.logged op hop).trans (Nat.le_succ n)
  past := by
    intro op hop
    apply (Function.forall_update_iff net.board fun _ w =>
      op.peerId = w.peerId → op.ts.toNat ≤ w.lamportTs.toNat).2
    exact ⟨hpast op hop, fun k _ => h.past op hop k⟩
  unique := h.unique

/-- A local operation where the others are ahead: its replica is past every earlier operation under
its peer id, so the stamp is new, and so is every other replica with that peer id. -/
theorem Ordered.produce (h : Ordered n net) (hn : n + 1 < 2 ^ 64) (i : ι) {w : CrdtWhiteboard}
    {op : Op} (hpeer : w.peerId = (net.board i).peerId)
    (hclock : w.lamportTs = (net.board i).tick.lamportTs) (hts : op.ts = w.lamportTs)
    (hop : op.peerId = w.peerId) (hstamps : StampsUpTo (n + 1) w) (hsafe : OthersAhead net i) :
    Ordered (n + 1) (net.produce i w op) := by
  have hci := h.clock i
  have hw : w.lamportTs.toNat = (net.board i).lamportTs.toNat + 1 := by
    rw [hclock, CrdtWhiteboard.tick_lamportTs _ (by omega)]
  -- the log apart, this is a step of replica `i` that makes no operation
  have hset : Ordered (n + 1) (net.set i w) := by
    apply h.set i (by omega) hstamps
    intro op' hop' hpeer'
    have hle := h.past op' hop' i (hpeer'.trans hpeer)
    omega
  -- an operation with the same stamp has the peer id of `i`, so `i` is past it already
  have hnew : op.stamp ∉ net.log.map Op.stamp := by
    intro hmem
    obtain ⟨op', hop', hstamp⟩ := List.mem_map.1 hmem
    obtain ⟨hts', hpeer'⟩ := stampOf_inj.1 hstamp
    have hle := h.past op' hop' i (by rw [hpeer', hop, hpeer])
    rw [hts', hts, hw] at hle
    omega
  refine ⟨hset.clock, hset.stamps, ?_, ?_, ?_⟩
  · intro op' hop'
    rcases List.mem_append.1 hop' with hold | hlast
    · exact hset.logged op' hold
    · obtain rfl := List.mem_singleton.1 hlast
      rw [hts]
      omega
  · intro op' hop'
    rcases List.mem_append.1 hop' with hold | hlast
    · exact hset.past op' hold
    · obtain rfl := List.mem_singleton.1 hlast
      rw [hts]
      apply (Function.forall_update_iff net.board fun _ w' =>
        op'.peerId = w'.peerId → w.lamportTs.toNat ≤ w'.lamportTs.toNat).2
      refine ⟨fun _ => le_rfl, fun k hk hpeer' => ?_⟩
      -- the only place where the others have to be ahead
      have hahead := hsafe k hk (by rw [← hpeer', hop, hpeer])
      omega
  · simp only [Net.produce, List.map_append, List.map_cons, List.map_nil]
    exact h.unique.append (List.nodup_singleton _)
      (List.disjoint_singleton.2 hnew)

/-- One step. -/
theorem Ordered.step {lib : StateLib} (h : Ordered n net) (hn : n + 1 < 2 ^ 64) (e : Event ι)
    (he : Enabled lib net e) (hsafe : Safe net e) : Ordered (n + 1) (net.step lib e) := by
  cases e with
  | localAdd i s =>
      have hci := h.clock i
      apply h.produce hn i _ _ rfl rfl _ hsafe
      · exact CrdtWhiteboard.localAdd_peerId _ s
      · exact CrdtWhiteboard.localAdd_lamportTs _ s
      · apply (StampsUpTo.mono (h.stamps i) (Nat.le_succ n)).localAdd
        dsimp only
        rw [CrdtWhiteboard.tick_lamportTs _ (by omega)]
        omega
  | localRemove i uuid =>
      have hci := h.clock i
      apply h.produce hn i _ _ rfl rfl _ hsafe
      · exact CrdtWhiteboard.localRemove_peerId _ uuid
      · exact CrdtWhiteboard.localRemove_lamportTs _ uuid
      · apply (StampsUpTo.mono (h.stamps i) (Nat.le_succ n)).localRemove
        dsimp only
        rw [CrdtWhiteboard.tick_lamportTs _ (by omega)]
        omega
  | deliver i op =>
      -- at most the clock moves one past the operation, which is no later than the steps so far
      have hop : op ∈ net.log := he
      have hts := h.logged op hop
      have hci := h.clock i
      have hclock : (receive (net.board i) op).lamportTs.toNat =
          max (net.board i).lamportTs.toNat (op.ts.toNat + 1) := by
        rw [receive_lamportTs, CrdtWhiteboard.updateClock_lamportTs _ _ (by omega)]
      apply h.set i (by omega)
      · exact ((h.stamps i).mono (Nat.le_succ n)).receive op (by omega)
      · intro op' hop' hpeer'
        have hle := h.past op' hop' i (hpeer'.trans (receive_peerId _ op))
        omega
  | merge i j addOrder removeOrder =>
      have hci := h.clock i
      obtain ⟨hge, hle⟩ := (net.board i).merge_lamportTs (net.board j) addOrder removeOrder hn
        (by omega) (h.stamps j).added (h.stamps j).removed
      apply h.set i hle
      · exact StampsUpTo.mono ((h.stamps i).merge (h.stamps j) addOrder removeOrder) (Nat.le_succ n)
      · intro op' hop' hpeer'
        exact (h.past op' hop' i (hpeer'.trans (CrdtWhiteboard.merge_peerId _ _ _ _))).trans hge
  | load i j addOrder removeOrder =>
      -- the replica has become a copy of the other one, which is past these operations
      obtain ⟨w, hparse, hpeer, hclock, hremoved, hadded⟩ :=
        parseJson_serializeJson he (net.board i)
      change Ordered (n + 1) (net.set i (parseJson lib (net.board i) _).1)
      rw [hparse]
      have hcj := h.clock j
      apply h.set i
      · rw [hclock]
        omega
      · exact ((h.stamps j).of_reload hadded hremoved).mono (Nat.le_succ n)
      · intro op' hop' hpeer'
        rw [hclock]
        exact h.past op' hop' j (hpeer'.trans hpeer)

theorem Ordered.run {lib : StateLib} (h : Ordered n net) (events : List (Event ι))
    (hlen : n + events.length < 2 ^ 64) (hen : Along (Net.step lib) (Enabled lib) net events)
    (hsafe : Along (Net.step lib) Safe net events) :
    Ordered (n + events.length) (run (Net.step lib) net events) := by
  induction events generalizing n net with
  | nil => exact h
  | cons e events ih =>
      rw [List.length_cons] at hlen ⊢
      have hstep := h.step (by omega) e hen.1 hsafe.1
      have hrun := ih hstep (by omega) hen.2 hsafe.2
      rw [show n + (events.length + 1) = n + 1 + events.length by omega]
      exact hrun

end Ordered

/-! ## Replicas that share a peer id -/

section Behind

variable {lib : StateLib} {net : Net ι}

theorem localRemove_clock {w : CrdtWhiteboard} (uuid : String)
    (h : w.lamportTs.toNat + 1 < 2 ^ 64) :
    (w.localRemove uuid).lamportTs.toNat = w.lamportTs.toNat + 1 := by
  rw [CrdtWhiteboard.localRemove_lamportTs, CrdtWhiteboard.tick_lamportTs _ h]

/-- A replica that is behind an operation under its own peer id repeats the stamp after as many
local operations as it is behind. -/
theorem repeats_of_past (n : ℕ) (j : ι) (op : Op) (hop : op ∈ net.log)
    (hpeer : op.peerId = (net.board j).peerId)
    (hts : op.ts.toNat = (net.board j).lamportTs.toNat + (n + 1)) :
    ¬((run (Net.step lib) net (List.replicate (n + 1) (.localRemove j ""))).log.map
      Op.stamp).Nodup := by
  have hlt := op.ts.toNat_lt
  have hclock := localRemove_clock (w := net.board j) "" (by omega)
  have hpeer' := CrdtWhiteboard.localRemove_peerId (net.board j) ""
  have hboard : (net.step lib (.localRemove j "")).board j = (net.board j).localRemove "" :=
    Function.update_self j _ net.board
  -- by induction on how far replica `j` is behind
  induction n generalizing net with
  | zero =>
      intro hnodup
      rw [List.replicate_one, run_cons, run_nil, Net.step, Net.produce, List.map_append,
        List.map_singleton] at hnodup
      -- the operation made now has the stamp of `op`
      apply List.disjoint_of_nodup_append hnodup (List.mem_map_of_mem hop)
      rw [List.mem_singleton]
      apply stampOf_inj.2
      refine ⟨UInt64.toNat_inj.1 ?_, ?_⟩
      · rw [hts]
        exact hclock.symm
      · exact hpeer.trans hpeer'.symm
  | succ n ih =>
      rw [List.replicate_succ, run_cons]
      have hnext : op.ts.toNat =
          ((net.step lib (.localRemove j "")).board j).lamportTs.toNat + (n + 1) := by
        rw [hboard, hclock, hts]
        omega
      apply ih
      · exact List.mem_append_left _ hop
      · rw [hboard, hpeer']
        exact hpeer
      · exact hnext
      · exact localRemove_clock "" (by omega)
      · exact CrdtWhiteboard.localRemove_peerId _ ""
      · exact Function.update_self j _ _

/-- Local operations are always enabled. -/
theorem along_enabled_replicate (n : ℕ) (j : ι) (net : Net ι) :
    Along (Net.step lib) (Enabled lib) net (List.replicate n (.localRemove j "")) := by
  induction n generalizing net with
  | zero => exact along_nil net
  | succ n ih =>
      rw [List.replicate_succ]
      exact ⟨trivial, ih _⟩

/-- After an operation of replica `i` where another one with its peer id is not ahead, that one can
repeat the stamp. -/
theorem repeats_of_behind {i j : ι} (hij : j ≠ i) {w : CrdtWhiteboard} {op : Op}
    (hpeer : (net.board j).peerId = op.peerId)
    (hbehind : (net.board j).lamportTs.toNat < op.ts.toNat) :
    ∃ more, Along (Net.step lib) (Enabled lib) (net.produce i w op) more ∧
      ¬((run (Net.step lib) (net.produce i w op) more).log.map Op.stamp).Nodup := by
  have hboard : (net.produce i w op).board j = net.board j := Function.update_of_ne hij _ _
  obtain ⟨n, hn⟩ := Nat.exists_eq_add_of_lt hbehind
  refine ⟨_, along_enabled_replicate (n + 1) j _, ?_⟩
  apply repeats_of_past n j op
  · exact List.mem_append_right _ (List.mem_singleton_self op)
  · rw [hboard, hpeer]
  · rw [hboard]
    omega

/-- After an unsafe event some continuation repeats a stamp. -/
theorem repeats_of_not_safe (hclock : ∀ i, (net.board i).lamportTs.toNat + 1 < 2 ^ 64)
    {e : Event ι} (he : ¬Safe net e) :
    ∃ more, Along (Net.step lib) (Enabled lib) (net.step lib e) more ∧
      ¬((run (Net.step lib) (net.step lib e) more).log.map Op.stamp).Nodup := by
  cases e with
  | localAdd i s =>
      simp only [Safe, OthersAhead, not_forall, not_lt] at he
      obtain ⟨j, hij, hpeer, hle⟩ := he
      -- the stamp of the new operation, which the other replica with this id reaches later
      have hts : ((net.board i).localAdd s).lamportTs.toNat =
          (net.board i).lamportTs.toNat + 1 := by
        rw [CrdtWhiteboard.localAdd_lamportTs, CrdtWhiteboard.tick_lamportTs _ (hclock i)]
      apply repeats_of_behind hij
      · rw [hpeer]
        exact (CrdtWhiteboard.localAdd_peerId _ s).symm
      · change _ < ((net.board i).localAdd s).lamportTs.toNat
        omega
  | localRemove i uuid =>
      simp only [Safe, OthersAhead, not_forall, not_lt] at he
      obtain ⟨j, hij, hpeer, hle⟩ := he
      have hts := localRemove_clock uuid (hclock i)
      apply repeats_of_behind hij
      · rw [hpeer]
        exact (CrdtWhiteboard.localRemove_peerId _ uuid).symm
      · change _ < ((net.board i).localRemove uuid).lamportTs.toNat
        omega
  -- these events give no stamp
  | deliver i op => exact absurd trivial he
  | merge i j addOrder removeOrder => exact absurd trivial he
  | load i j addOrder removeOrder => exact absurd trivial he

end Behind

/-- In every run that is too short to exhaust the 64-bit clocks, with full states loaded in between,
in which local operations are only made where every other replica with the same peer id is ahead:
no two local operations have the same stamp. A local operation made elsewhere can be continued by
others such that a stamp occurs twice. -/
theorem stamps_nodup (lib : StateLib) (peerId : ι → String) (events : List (Event ι))
    (hlen : events.length < 2 ^ 64 - 1)
    (hen : Along (Net.step lib) (Enabled lib) (Net.init peerId) events)
    (hsafe : Along (Net.step lib) Safe (Net.init peerId) events) :
    let net := run (Net.step lib) (Net.init peerId) events
    (net.log.map Op.stamp).Nodup ∧ ∀ e, ¬Safe net e →
      ∃ more, Along (Net.step lib) (Enabled lib) (net.step lib e) more ∧
        ¬((run (Net.step lib) (net.step lib e) more).log.map Op.stamp).Nodup := by
  intro net
  have h : Ordered (0 + events.length) net :=
    (ordered_init peerId).run events (by omega) hen hsafe
  refine ⟨h.unique, ?_⟩
  intro e he
  apply repeats_of_not_safe _ he
  intro i
  have hclock := h.clock i
  omega

/-! ## Runs in which nobody loads the state of another replica -/

/-- A replica that loads a state loads its own. -/
def OwnLoad : Event ι → Prop
  | .load i j _ _ => i = j
  | _ => True

theorem set_peerId {net : Net ι} {i : ι} {w : CrdtWhiteboard}
    (hw : w.peerId = (net.board i).peerId) (k : ι) :
    ((net.set i w).board k).peerId = (net.board k).peerId := by
  revert k
  apply (Function.forall_update_iff net.board fun k w' => w'.peerId = (net.board k).peerId).2
  exact ⟨hw, fun _ _ => rfl⟩

theorem step_peerId {lib : StateLib} {net : Net ι} {e : Event ι} (he : Enabled lib net e)
    (hown : OwnLoad e) (k : ι) :
    ((net.step lib e).board k).peerId = (net.board k).peerId := by
  cases e with
  | localAdd i s => exact set_peerId (CrdtWhiteboard.localAdd_peerId _ s) k
  | localRemove i uuid => exact set_peerId (CrdtWhiteboard.localRemove_peerId _ uuid) k
  | deliver i op => exact set_peerId (receive_peerId _ op) k
  | merge i j addOrder removeOrder => exact set_peerId (CrdtWhiteboard.merge_peerId _ _ _ _) k
  | load i j addOrder removeOrder =>
      obtain rfl : i = j := hown
      obtain ⟨w, hparse, hpeer, -⟩ := parseJson_serializeJson he (net.board i)
      apply set_peerId
      rw [hparse]
      exact hpeer

/-- Without loads between different replicas the peer ids stay distinct, and local operations are
safe everywhere. -/
theorem along_safe_of_own_loads {lib : StateLib} {peerId : ι → String}
    (hinj : Function.Injective peerId) {events : List (Event ι)}
    (h : Along (Net.step lib) (fun net e => Enabled lib net e ∧ OwnLoad e) (Net.init peerId)
      events) : Along (Net.step lib) Safe (Net.init peerId) events := by
  apply along_of_inv (I := fun net : Net ι => ∀ i, (net.board i).peerId = peerId i) _ _ _ h
  · intro net e hpeers he k
    rw [step_peerId he.1 he.2, hpeers]
  · intro net e hpeers _
    -- no other replica has the peer id of `i`
    have hdistinct : ∀ i, OthersAhead net i := by
      intro i j hij hpeer
      rw [hpeers, hpeers] at hpeer
      exact absurd (hinj hpeer) hij
    cases e with
    | localAdd i s => exact hdistinct i
    | localRemove i uuid => exact hdistinct i
    | deliver i op => trivial
    | merge i j addOrder removeOrder => trivial
    | load i j addOrder removeOrder => trivial
  · intro i
    rfl

/-! ## A joining replica -/

/-- The document of peer `A` before its first operation. -/
def blankJson : Json :=
  .obj [("added", .arr []), ("lamport_ts", .uint 0), ("peer_id", .str "A"), ("removed", .arr [])]

/-- The library on that document. -/
def blankLib : StateLib where
  dump _ := "\x7b\"added\":[],\"lamport_ts\":0,\"peer_id\":\"A\",\"removed\":[]\x7d"
  parse _ := some blankJson
  floatToDouble _ := 0
  doubleToFloat _ := 0
  intToFloat _ := 0
  uintToFloat _ := 0
  doubleToUInt32 _ := 0
  doubleToUInt64 _ := 0

/-- An empty whiteboard is written and read back. -/
theorem blankLib_reproduces :
    blankLib.Reproduces (stateJson blankLib (.ofPeer "A") someVisits someVisits) := by
  have hadded : (CrdtWhiteboard.ofPeer "A").added.entries = 0 := rfl
  have hremoved : (CrdtWhiteboard.ofPeer "A").removed.entries = 0 := rfl
  have hempty : stateJson blankLib (.ofPeer "A") someVisits someVisits = blankJson := by
    simp only [stateJson, someVisits, hadded, hremoved, Multiset.toList_zero, List.map_nil]
    rfl
  rw [hempty]
  rfl

/-- `B` draws, loads the state of `A` and receives its own stroke back, and then `A` draws. -/
noncomputable def rejoining : List (Event Bool) :=
  [.localAdd false { uuid := "s1" }, .load false true someVisits someVisits,
    .deliver false (.add ⟨{ uuid := "s1" }, 1, "B"⟩), .localAdd true { uuid := "s2" }]

theorem stamps_nodup_rejoining :
    ((run (Net.step blankLib) (Net.init Replicas.twoPeers) rejoining).log.map Op.stamp).Nodup := by
  refine (stamps_nodup blankLib Replicas.twoPeers rejoining (by decide) ?_ ?_).1
  · exact ⟨trivial, blankLib_reproduces, List.mem_singleton.2 rfl, trivial, trivial⟩
  · refine ⟨?_, trivial, trivial, ?_, trivial⟩
    · intro j hj hpeer
      cases j with
      | false => exact absurd rfl hj
      | true => exact absurd hpeer (by decide)
    · intro j hj _
      cases j with
      | false => exact show 0 < 2 by decide
      | true => exact absurd rfl hj

/-- `B` joins with the state of `A`, and both draw. -/
noncomputable def joining : List (Event Bool) :=
  [.load false true someVisits someVisits, .localAdd true { uuid := "s1" },
    .localAdd false { uuid := "s2" }]

theorem not_nodup_joining :
    ¬∀ (lib : StateLib) (peerId : Bool → String) (events : List (Event Bool)),
      Function.Injective peerId → events.length < 2 ^ 64 - 1 →
        Along (Net.step lib) (Enabled lib) (Net.init peerId) events →
          ((run (Net.step lib) (Net.init peerId) events).log.map Op.stamp).Nodup := by
  intro h
  have hnodup := h blankLib Replicas.twoPeers joining (by decide) (by decide)
    ⟨blankLib_reproduces, trivial, trivial, trivial⟩
  have hstamps : (run (Net.step blankLib) (Net.init Replicas.twoPeers) joining).log.map Op.stamp =
      [stampOf 1 "A", stampOf 1 "A"] := rfl
  rw [hstamps] at hnodup
  exact (List.nodup_cons.1 hnodup).1 (List.mem_singleton.2 rfl)

end CppMeet.Whiteboard.FullSync
