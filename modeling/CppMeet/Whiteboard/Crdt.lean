import CppMeet.Lib.LastWriter
import Mathlib.Data.Prod.Lex
import Mathlib.Data.String.Basic

/-!
# The shared whiteboard

`CrdtWhiteboard` is a last-writer-wins element set with a Lamport clock. A stroke is recorded in
`added` under its uuid and a removal in `removed`, each with the pair of a timestamp and the id of
the peer that made it; `lwwWins` orders these pairs lexicographically. The clock is a 64-bit
counter and wraps as the C++ one does. The loops over the hash maps take the iteration order as an
argument.

Each of the two update rules is the register update `LastWriter.offer` at one key
(`recordAdd_lookup`, `recordRemove_lookup`), so `merge` joins the two whiteboards key by key,
whatever the iteration order (`merge_added`, `merge_removed`).
-/

set_option autoImplicit false

namespace CppMeet.Whiteboard.Crdt

open CppMeet.Lib.HashMap CppMeet.Lib.LastWriter

/-- A `float`, as its bit pattern. -/
abbrev FloatBits := UInt32

/-- A point of a stroke. -/
structure Point where
  x : FloatBits
  y : FloatBits
  deriving DecidableEq, Repr

/-- A stroke of the whiteboard. -/
structure Stroke where
  uuid : String
  points : List Point := []
  color : UInt32 := 0xFF000000
  width : FloatBits := 0x40000000
  deriving DecidableEq, Repr

/-- A stroke, and when and by whom it was added. -/
structure AddEntry where
  stroke : Stroke
  ts : UInt64
  peerId : String
  deriving DecidableEq, Repr

/-- When and by whom a stroke was removed. -/
structure RemoveEntry where
  ts : UInt64
  peerId : String
  deriving DecidableEq, Repr

/-- A whiteboard. Every assignment to `added_[uuid]` in the source stores a stroke under its own
uuid, which `keyed` records. -/
structure CrdtWhiteboard where
  peerId : String
  lamportTs : UInt64 := 0
  added : UnorderedMap String AddEntry := ∅
  removed : UnorderedMap String RemoveEntry := ∅
  keyed : ∀ uuid e, added.lookup uuid = some e → e.stroke.uuid = uuid := by simp

/-- `true` when the stamp `(tsA, pidA)` beats `(tsB, pidB)`. -/
def lwwWins (tsA : UInt64) (pidA : String) (tsB : UInt64) (pidB : String) : Bool :=
  if tsA ≠ tsB then tsA > tsB else pidA > pidB

namespace CrdtWhiteboard

theorem keyed_empty (uuid : String) (e : AddEntry)
    (h : (∅ : UnorderedMap String AddEntry).lookup uuid = some e) : e.stroke.uuid = uuid := by
  cases h

/-- The constructor. -/
def ofPeer (peerId : String) : CrdtWhiteboard := { peerId, keyed := keyed_empty }

/-- `++lamport_ts_`. The new clock value is the timestamp of the operation. -/
def tick (w : CrdtWhiteboard) : CrdtWhiteboard := { w with lamportTs := w.lamportTs + 1 }

/-- A clock that is not ahead of the remote one is set behind it. -/
def updateClock (w : CrdtWhiteboard) (remoteTs : UInt64) : CrdtWhiteboard :=
  if remoteTs ≥ w.lamportTs then { w with lamportTs := remoteTs + 1 } else w

/-- An entry is inserted under the uuid of its stroke. -/
theorem keyed_insert (w : CrdtWhiteboard) (e : AddEntry) (uuid : String) (e' : AddEntry)
    (h : (w.added.insert e.stroke.uuid e).lookup uuid = some e') : e'.stroke.uuid = uuid := by
  rw [lookup_insert_ite] at h
  by_cases hu : uuid = e.stroke.uuid
  · rw [if_pos hu, Option.some.injEq] at h
    rw [← h, hu]
  · rw [if_neg hu] at h
    exact w.keyed uuid e' h

/-- `added_[e.stroke.uuid] = e`. -/
def putAdded (w : CrdtWhiteboard) (e : AddEntry) : CrdtWhiteboard :=
  { w with added := w.added.insert e.stroke.uuid e, keyed := w.keyed_insert e }

/-- The body that `local_add` and `remote_add` share: the entry is stored unless the current one
of its uuid has a stamp that is not smaller. -/
def recordAdd (w : CrdtWhiteboard) (s : Stroke) (ts : UInt64) (peerId : String) :
    CrdtWhiteboard :=
  match w.added.lookup s.uuid with
  | none => w.putAdded ⟨s, ts, peerId⟩
  | some cur => if lwwWins ts peerId cur.ts cur.peerId then w.putAdded ⟨s, ts, peerId⟩ else w

/-- The body that `local_remove` and `remote_remove` share. -/
def recordRemove (w : CrdtWhiteboard) (uuid : String) (ts : UInt64) (peerId : String) :
    CrdtWhiteboard :=
  match w.removed.lookup uuid with
  | none => { w with removed := w.removed.insert uuid ⟨ts, peerId⟩ }
  | some cur =>
      -- an older removal does not replace a newer one
      if lwwWins ts peerId cur.ts cur.peerId then
        { w with removed := w.removed.insert uuid ⟨ts, peerId⟩ }
      else w

/-- The clock ticks, and the stroke is added under its value. -/
def localAdd (w : CrdtWhiteboard) (s : Stroke) : CrdtWhiteboard :=
  w.tick.recordAdd s w.tick.lamportTs w.peerId

/-- The clock ticks, and the removal is recorded under its value. -/
def localRemove (w : CrdtWhiteboard) (uuid : String) : CrdtWhiteboard :=
  w.tick.recordRemove uuid w.tick.lamportTs w.peerId

/-- An addition of another peer; the clock follows it first. -/
def remoteAdd (w : CrdtWhiteboard) (s : Stroke) (ts : UInt64) (peerId : String) :
    CrdtWhiteboard :=
  (w.updateClock ts).recordAdd s ts peerId

/-- A removal of another peer; the clock follows it first. -/
def remoteRemove (w : CrdtWhiteboard) (uuid : String) (ts : UInt64) (peerId : String) :
    CrdtWhiteboard :=
  (w.updateClock ts).recordRemove uuid ts peerId

/-- The first loop of `merge`, over the entries of `other.added_` in the order given. -/
def mergeAdded (w : CrdtWhiteboard) (l : List (Σ _ : String, AddEntry)) : CrdtWhiteboard :=
  l.foldl (fun w p => w.remoteAdd p.2.stroke p.2.ts p.2.peerId) w

/-- The second loop of `merge`, over the entries of `other.removed_` in the order given. -/
def mergeRemoved (w : CrdtWhiteboard) (l : List (Σ _ : String, RemoveEntry)) : CrdtWhiteboard :=
  l.foldl (fun w p => w.remoteRemove p.1 p.2.ts p.2.peerId) w

/-- The entries of the other whiteboard are taken over where they win, in the order its maps are
visited. -/
def merge (w other : CrdtWhiteboard) (addOrder : IterOrder String AddEntry)
    (removeOrder : IterOrder String RemoveEntry) : CrdtWhiteboard :=
  (w.mergeAdded (addOrder other.added).visits).mergeRemoved (removeOrder other.removed).visits

/-- A stroke is visible if it was added and no removal wins against that. -/
def isVisible (w : CrdtWhiteboard) (uuid : String) : Bool :=
  match w.added.lookup uuid with
  | none => false
  | some add =>
      match w.removed.lookup uuid with
      | none => true
      | some rm => lwwWins add.ts add.peerId rm.ts rm.peerId

/-- The visible strokes, in the order the map is visited. -/
def visibleStrokes (w : CrdtWhiteboard) (order : IterOrder String AddEntry) : List Stroke :=
  ((order w.added).visits.filter fun p => w.isVisible p.1).map fun p => p.2.stroke

end CrdtWhiteboard

/-! ## Stamps -/

/-- The stamp of an entry, in the order that decides between two entries. -/
def stampOf (ts : UInt64) (peerId : String) : ℕ ×ₗ String := toLex (ts.toNat, peerId)

/-- What decides between two additions. -/
def AddEntry.stamp (e : AddEntry) : ℕ ×ₗ String := stampOf e.ts e.peerId

/-- What decides between two removals. -/
def RemoveEntry.stamp (e : RemoveEntry) : ℕ ×ₗ String := stampOf e.ts e.peerId

/-- A stamp is its clock value and its peer. -/
theorem stampOf_inj {ts ts' : UInt64} {p p' : String} :
    stampOf ts p = stampOf ts' p' ↔ ts = ts' ∧ p = p' := by
  simp only [stampOf, EmbeddingLike.apply_eq_iff_eq, Prod.mk.injEq, UInt64.toNat_inj]

/-- Stamps are compared by clock, and then by peer. -/
theorem stampOf_lt_iff {ts ts' : UInt64} {p p' : String} :
    stampOf ts p < stampOf ts' p' ↔
      ts.toNat < ts'.toNat ∨ ts.toNat = ts'.toNat ∧ p < p' := Prod.Lex.toLex_lt_toLex

theorem ts_le_of_stampOf_le {ts ts' : UInt64} {p p' : String}
    (h : stampOf ts p ≤ stampOf ts' p') : ts.toNat ≤ ts'.toNat :=
  Prod.Lex.monotone_fst _ _ h

/-- `lww_wins` is the strict order of the stamps. -/
theorem lwwWins_iff (tsA : UInt64) (pidA : String) (tsB : UInt64) (pidB : String) :
    lwwWins tsA pidA tsB pidB = true ↔ stampOf tsB pidB < stampOf tsA pidA := by
  unfold lwwWins stampOf
  rw [Prod.Lex.toLex_lt_toLex]
  by_cases h : tsA = tsB
  · subst h
    simp
  · have hne : tsB.toNat ≠ tsA.toNat := fun h' => h (UInt64.toNat_inj.1 h'.symm)
    simp [h, hne, UInt64.lt_iff_toNat_lt]

/-! ## One record per key -/

namespace CrdtWhiteboard

variable (w : CrdtWhiteboard)

@[simp] theorem tick_peerId : w.tick.peerId = w.peerId := rfl
@[simp] theorem tick_added : w.tick.added = w.added := rfl
@[simp] theorem tick_removed : w.tick.removed = w.removed := rfl

@[simp] theorem updateClock_peerId (ts : UInt64) : (w.updateClock ts).peerId = w.peerId := by
  unfold updateClock
  split <;> rfl

@[simp] theorem updateClock_added (ts : UInt64) : (w.updateClock ts).added = w.added := by
  unfold updateClock
  split <;> rfl

@[simp] theorem updateClock_removed (ts : UInt64) : (w.updateClock ts).removed = w.removed := by
  unfold updateClock
  split <;> rfl

/-- `recordAdd` changes nothing but `added`, where it offers the entry at its uuid. -/
theorem recordAdd_eq (s : Stroke) (ts : UInt64) (peerId : String) :
    (w.recordAdd s ts peerId).added =
        offerAt AddEntry.stamp w.added s.uuid ⟨s, ts, peerId⟩ ∧
      (w.recordAdd s ts peerId).removed = w.removed ∧
      (w.recordAdd s ts peerId).peerId = w.peerId ∧
      (w.recordAdd s ts peerId).lamportTs = w.lamportTs := by
  unfold recordAdd offerAt
  cases w.added.lookup s.uuid with
  | none => exact ⟨rfl, rfl, rfl, rfl⟩
  | some cur =>
      have hiff : lwwWins ts peerId cur.ts cur.peerId = true ↔
          cur.stamp < AddEntry.stamp ⟨s, ts, peerId⟩ := lwwWins_iff ts peerId cur.ts cur.peerId
      by_cases hlt : cur.stamp < AddEntry.stamp ⟨s, ts, peerId⟩
      · simp [hiff, hlt, putAdded]
      · simp [hiff, hlt]

/-- `recordRemove` changes nothing but `removed`, where it offers the entry at the uuid. -/
theorem recordRemove_eq (uuid : String) (ts : UInt64) (peerId : String) :
    (w.recordRemove uuid ts peerId).removed =
        offerAt RemoveEntry.stamp w.removed uuid ⟨ts, peerId⟩ ∧
      (w.recordRemove uuid ts peerId).added = w.added ∧
      (w.recordRemove uuid ts peerId).peerId = w.peerId ∧
      (w.recordRemove uuid ts peerId).lamportTs = w.lamportTs := by
  unfold recordRemove offerAt
  cases w.removed.lookup uuid with
  | none => exact ⟨rfl, rfl, rfl, rfl⟩
  | some cur =>
      have hiff : lwwWins ts peerId cur.ts cur.peerId = true ↔
          cur.stamp < RemoveEntry.stamp ⟨ts, peerId⟩ := lwwWins_iff ts peerId cur.ts cur.peerId
      by_cases hlt : cur.stamp < RemoveEntry.stamp ⟨ts, peerId⟩
      · simp [hiff, hlt]
      · simp [hiff, hlt]

/-- The addition is offered to the map of additions. -/
@[simp] theorem recordAdd_added (s : Stroke) (ts : UInt64) (peerId : String) :
    (w.recordAdd s ts peerId).added = offerAt AddEntry.stamp w.added s.uuid ⟨s, ts, peerId⟩ :=
  (w.recordAdd_eq s ts peerId).1

@[simp] theorem recordAdd_removed (s : Stroke) (ts : UInt64) (peerId : String) :
    (w.recordAdd s ts peerId).removed = w.removed :=
  (w.recordAdd_eq s ts peerId).2.1

@[simp] theorem recordAdd_peerId (s : Stroke) (ts : UInt64) (peerId : String) :
    (w.recordAdd s ts peerId).peerId = w.peerId :=
  (w.recordAdd_eq s ts peerId).2.2.1

@[simp] theorem recordAdd_lamportTs (s : Stroke) (ts : UInt64) (peerId : String) :
    (w.recordAdd s ts peerId).lamportTs = w.lamportTs :=
  (w.recordAdd_eq s ts peerId).2.2.2

/-- The removal is offered to the map of removals. -/
@[simp] theorem recordRemove_removed (uuid : String) (ts : UInt64) (peerId : String) :
    (w.recordRemove uuid ts peerId).removed =
      offerAt RemoveEntry.stamp w.removed uuid ⟨ts, peerId⟩ :=
  (w.recordRemove_eq uuid ts peerId).1

@[simp] theorem recordRemove_added (uuid : String) (ts : UInt64) (peerId : String) :
    (w.recordRemove uuid ts peerId).added = w.added :=
  (w.recordRemove_eq uuid ts peerId).2.1

@[simp] theorem recordRemove_peerId (uuid : String) (ts : UInt64) (peerId : String) :
    (w.recordRemove uuid ts peerId).peerId = w.peerId :=
  (w.recordRemove_eq uuid ts peerId).2.2.1

@[simp] theorem recordRemove_lamportTs (uuid : String) (ts : UInt64) (peerId : String) :
    (w.recordRemove uuid ts peerId).lamportTs = w.lamportTs :=
  (w.recordRemove_eq uuid ts peerId).2.2.2

@[simp] theorem localAdd_peerId (s : Stroke) : (w.localAdd s).peerId = w.peerId :=
  recordAdd_peerId _ _ _ _

@[simp] theorem localAdd_lamportTs (s : Stroke) :
    (w.localAdd s).lamportTs = w.tick.lamportTs := recordAdd_lamportTs _ _ _ _

@[simp] theorem localRemove_peerId (uuid : String) : (w.localRemove uuid).peerId = w.peerId :=
  recordRemove_peerId _ _ _ _

@[simp] theorem localRemove_lamportTs (uuid : String) :
    (w.localRemove uuid).lamportTs = w.tick.lamportTs := recordRemove_lamportTs _ _ _ _

/-- A local operation is recorded under the clock and the peer id that it leaves. -/
theorem localAdd_eq (s : Stroke) : w.localAdd s =
    w.tick.recordAdd s (w.localAdd s).lamportTs (w.localAdd s).peerId := by
  rw [localAdd_lamportTs, localAdd_peerId, localAdd]

/-- A local removal is a tick, and a removal under the new clock. -/
theorem localRemove_eq (uuid : String) : w.localRemove uuid =
    w.tick.recordRemove uuid (w.localRemove uuid).lamportTs (w.localRemove uuid).peerId := by
  rw [localRemove_lamportTs, localRemove_peerId, localRemove]

/-! ## Merging -/

theorem mergeAdded_eq (l : List (Σ _ : String, AddEntry)) (hl : ∀ p ∈ l, p.2.stroke.uuid = p.1) :
    (w.mergeAdded l).added = absorb AddEntry.stamp w.added l ∧
      (w.mergeAdded l).removed = w.removed ∧ (w.mergeAdded l).peerId = w.peerId := by
  induction l generalizing w with
  | nil => exact ⟨rfl, rfl, rfl⟩
  | cons p l ih =>
      obtain ⟨hadd, hrem, hpeer⟩ :=
        ih (w.remoteAdd p.2.stroke p.2.ts p.2.peerId) fun q hq => hl q (List.mem_cons_of_mem _ hq)
      have hp : p.2.stroke.uuid = p.1 := hl p List.mem_cons_self
      refine ⟨hadd.trans ?_, hrem.trans ?_, hpeer.trans ?_⟩
      · simp only [remoteAdd, recordAdd_added, updateClock_added, absorb, List.foldl_cons, hp]
      · simp only [remoteAdd, recordAdd_removed, updateClock_removed]
      · simp only [remoteAdd, recordAdd_peerId, updateClock_peerId]

theorem mergeRemoved_eq (l : List (Σ _ : String, RemoveEntry)) :
    (w.mergeRemoved l).removed = absorb RemoveEntry.stamp w.removed l ∧
      (w.mergeRemoved l).added = w.added ∧ (w.mergeRemoved l).peerId = w.peerId := by
  induction l generalizing w with
  | nil => exact ⟨rfl, rfl, rfl⟩
  | cons p l ih =>
      obtain ⟨hrem, hadd, hpeer⟩ := ih (w.remoteRemove p.1 p.2.ts p.2.peerId)
      refine ⟨hrem.trans ?_, hadd.trans ?_, hpeer.trans ?_⟩
      · simp only [remoteRemove, recordRemove_removed, updateClock_removed, absorb,
          List.foldl_cons]
      · simp only [remoteRemove, recordRemove_added, updateClock_added]
      · simp only [remoteRemove, recordRemove_peerId, updateClock_peerId]

variable (other : CrdtWhiteboard) (addOrder : IterOrder String AddEntry)
  (removeOrder : IterOrder String RemoveEntry)

/-- Every visited addition is under its own uuid. -/
theorem iteration_keyed (it : Iteration w.added) : ∀ p ∈ it.visits, p.2.stroke.uuid = p.1 :=
  fun p hp => w.keyed p.1 p.2 (it.mem_iff.1 hp)

/-- Key by key, `merge` joins the two `added_` maps, in whatever order it visits the entries. -/
theorem merge_added (uuid : String) :
    (w.merge other addOrder removeOrder).added.lookup uuid =
      join AddEntry.stamp (w.added.lookup uuid) (other.added.lookup uuid) := by
  have hit := w.mergeAdded_eq _ (other.iteration_keyed (addOrder other.added))
  rw [merge, (mergeRemoved_eq _ _).2.1, hit.1,
    lookup_absorb _ _ (addOrder other.added).nodupKeys, Iteration.dlookup_eq]

/-- After a merge the removal of a stroke is the later of the two. -/
theorem merge_removed (uuid : String) :
    (w.merge other addOrder removeOrder).removed.lookup uuid =
      join RemoveEntry.stamp (w.removed.lookup uuid) (other.removed.lookup uuid) := by
  have hit := w.mergeAdded_eq _ (other.iteration_keyed (addOrder other.added))
  rw [merge, (mergeRemoved_eq _ _).1, hit.2.1,
    lookup_absorb _ _ (removeOrder other.removed).nodupKeys, Iteration.dlookup_eq]

@[simp] theorem merge_peerId : (w.merge other addOrder removeOrder).peerId = w.peerId := by
  have hit := w.mergeAdded_eq _ (other.iteration_keyed (addOrder other.added))
  rw [merge, (mergeRemoved_eq _ _).2.2, hit.2.2]

/-! ## What holds of all entries -/

/-- Every added entry satisfies `P`, and every removal `Q`. -/
structure AllEntries (P : AddEntry → Prop) (Q : RemoveEntry → Prop) (w : CrdtWhiteboard) :
    Prop where
  added : ∀ uuid e, w.added.lookup uuid = some e → P e
  removed : ∀ uuid e, w.removed.lookup uuid = some e → Q e

namespace AllEntries

variable {P P' : AddEntry → Prop} {Q Q' : RemoveEntry → Prop} {w other : CrdtWhiteboard}

theorem ofPeer (peerId : String) : AllEntries P Q (.ofPeer peerId) where
  added := by
    intro uuid e he
    cases he
  removed := by
    intro uuid e he
    cases he

theorem imp (h : AllEntries P Q w) (hP : ∀ e, P e → P' e) (hQ : ∀ e, Q e → Q' e) :
    AllEntries P' Q' w where
  added := fun uuid e he => hP e (h.added uuid e he)
  removed := fun uuid e he => hQ e (h.removed uuid e he)

theorem of_maps {w' : CrdtWhiteboard} (h : AllEntries P Q w) (hadded : w'.added = w.added)
    (hremoved : w'.removed = w.removed) : AllEntries P Q w' where
  added := by
    rw [hadded]
    exact h.added
  removed := by
    rw [hremoved]
    exact h.removed

theorem recordAdd (h : AllEntries P Q w) {s : Stroke} {ts : UInt64} {peerId : String}
    (hnew : P ⟨s, ts, peerId⟩) : AllEntries P Q (w.recordAdd s ts peerId) where
  added := by
    intro uuid e he
    rw [recordAdd_added] at he
    rcases eq_of_lookup_offerAt _ he with rfl | hold
    · exact hnew
    · exact h.added uuid e hold
  removed := by
    rw [recordAdd_removed]
    exact h.removed

theorem recordRemove (h : AllEntries P Q w) (uuid' : String) {ts : UInt64} {peerId : String}
    (hnew : Q ⟨ts, peerId⟩) : AllEntries P Q (w.recordRemove uuid' ts peerId) where
  added := by
    rw [recordRemove_added]
    exact h.added
  removed := by
    intro uuid e he
    rw [recordRemove_removed] at he
    rcases eq_of_lookup_offerAt _ he with rfl | hold
    · exact hnew
    · exact h.removed uuid e hold

theorem localAdd (h : AllEntries P Q w) {s : Stroke}
    (hnew : P ⟨s, w.tick.lamportTs, w.peerId⟩) : AllEntries P Q (w.localAdd s) :=
  (h.of_maps w.tick_added w.tick_removed).recordAdd hnew

theorem localRemove (h : AllEntries P Q w) (uuid : String)
    (hnew : Q ⟨w.tick.lamportTs, w.peerId⟩) : AllEntries P Q (w.localRemove uuid) :=
  (h.of_maps w.tick_added w.tick_removed).recordRemove uuid hnew

theorem remoteAdd (h : AllEntries P Q w) {s : Stroke} {ts : UInt64} {peerId : String}
    (hnew : P ⟨s, ts, peerId⟩) : AllEntries P Q (w.remoteAdd s ts peerId) :=
  (h.of_maps (w.updateClock_added ts) (w.updateClock_removed ts)).recordAdd hnew

theorem remoteRemove (h : AllEntries P Q w) (uuid : String) {ts : UInt64} {peerId : String}
    (hnew : Q ⟨ts, peerId⟩) : AllEntries P Q (w.remoteRemove uuid ts peerId) :=
  (h.of_maps (w.updateClock_added ts) (w.updateClock_removed ts)).recordRemove uuid hnew

/-- A merge brings in entries of the other whiteboard only. -/
theorem merge (h : AllEntries P Q w) (h' : AllEntries P Q other)
    (addOrder : IterOrder String AddEntry) (removeOrder : IterOrder String RemoveEntry) :
    AllEntries P Q (w.merge other addOrder removeOrder) where
  added := by
    intro uuid e he
    rw [merge_added] at he
    rcases eq_of_join he with hleft | hright
    · exact h.added uuid e hleft
    · exact h'.added uuid e hright
  removed := by
    intro uuid e he
    rw [merge_removed] at he
    rcases eq_of_join he with hleft | hright
    · exact h.removed uuid e hleft
    · exact h'.removed uuid e hright

end AllEntries

/-! ## The clock -/

theorem tick_lamportTs (h : w.lamportTs.toNat + 1 < 2 ^ 64) :
    w.tick.lamportTs.toNat = w.lamportTs.toNat + 1 := by
  simp only [tick, UInt64.toNat_add, UInt64.toNat_one]
  exact Nat.mod_eq_of_lt h

/-- Below the top of the counter, `update_clock` moves the clock past the remote timestamp. -/
theorem updateClock_lamportTs (ts : UInt64) (h : ts.toNat + 1 < 2 ^ 64) :
    (w.updateClock ts).lamportTs.toNat = max w.lamportTs.toNat (ts.toNat + 1) := by
  unfold updateClock
  by_cases hge : ts ≥ w.lamportTs
  · have hle : w.lamportTs.toNat ≤ ts.toNat := UInt64.le_iff_toNat_le.1 hge
    rw [if_pos hge]
    simp only [UInt64.toNat_add, UInt64.toNat_one]
    rw [Nat.mod_eq_of_lt h]
    omega
  · have hlt : ts.toNat < w.lamportTs.toNat := by
      rw [← UInt64.lt_iff_toNat_lt]
      exact UInt64.not_le.1 hge
    rw [if_neg hge]
    omega

/-- A clock goes from `c` to `c'`, past every timestamp of `T` and no further than it has to. -/
structure Passes (T : Set UInt64) (c c' : UInt64) : Prop where
  le : c.toNat ≤ c'.toNat
  lt : ∀ ts ∈ T, ts.toNat < c'.toNat
  least : c' = c ∨ ∃ ts ∈ T, c'.toNat = ts.toNat + 1

theorem Passes.trans {T T' : Set UInt64} {c c' c'' : UInt64} (h : Passes T c c')
    (h' : Passes T' c' c'') : Passes (T ∪ T') c c'' where
  le := h.le.trans h'.le
  lt ts hts := hts.elim (fun hts => (h.lt ts hts).trans_le h'.le) (h'.lt ts)
  least := by
    rcases h'.least with rfl | ⟨ts, hts, heq⟩
    · rcases h.least with rfl | ⟨ts, hts, heq⟩
      · exact Or.inl rfl
      · exact Or.inr ⟨ts, Or.inl hts, heq⟩
    · exact Or.inr ⟨ts, Or.inr hts, heq⟩

/-- Where nothing passed exceeds `n`, the clock does not move past `n + 1`. -/
theorem Passes.le_succ {T : Set UInt64} {c c' : UInt64} (h : Passes T c c') {n : ℕ}
    (hc : c.toNat ≤ n + 1) (hT : ∀ ts ∈ T, ts.toNat ≤ n) : c'.toNat ≤ n + 1 := by
  rcases h.least with rfl | ⟨ts, hts, heq⟩
  · exact hc
  · rw [heq]
    exact Nat.succ_le_succ (hT ts hts)

/-- A remote stamp below the top is passed. -/
theorem updateClock_passes (ts : UInt64) (h : ts.toNat + 1 < 2 ^ 64) :
    Passes {ts} w.lamportTs (w.updateClock ts).lamportTs := by
  have hclock := w.updateClock_lamportTs ts h
  refine ⟨by omega, ?_, ?_⟩
  · rintro ts' rfl
    omega
  · unfold updateClock
    by_cases hge : ts ≥ w.lamportTs
    · rw [if_pos hge]
      simp only [UInt64.toNat_add, UInt64.toNat_one]
      exact Or.inr ⟨ts, rfl, Nat.mod_eq_of_lt h⟩
    · rw [if_neg hge]
      exact Or.inl rfl

/-- A loop whose every turn feeds a timestamp to `update_clock`. -/
theorem foldl_passes {α : Type} {f : CrdtWhiteboard → α → CrdtWhiteboard} {tsOf : α → UInt64}
    (hf : ∀ w a, (f w a).lamportTs = (w.updateClock (tsOf a)).lamportTs) (l : List α)
    (hl : ∀ a ∈ l, (tsOf a).toNat + 1 < 2 ^ 64) :
    Passes {ts | ∃ a ∈ l, tsOf a = ts} w.lamportTs (l.foldl f w).lamportTs := by
  induction l generalizing w with
  | nil => exact ⟨le_rfl, fun ts ⟨a, ha, _⟩ => absurd ha List.not_mem_nil, Or.inl rfl⟩
  | cons a l ih =>
      obtain ⟨ha, hrest⟩ := List.forall_mem_cons.1 hl
      have hfirst := w.updateClock_passes (tsOf a) ha
      rw [← hf] at hfirst
      have hall : {ts | ∃ b ∈ a :: l, tsOf b = ts} =
          {tsOf a} ∪ {ts | ∃ b ∈ l, tsOf b = ts} := by
        ext ts
        simp only [List.exists_mem_cons_iff, Set.mem_ofPred_eq, Set.mem_union,
          Set.mem_singleton_iff, eq_comm]
      rw [hall]
      exact hfirst.trans (ih (f w a) hrest)

/-- The timestamps of all entries. -/
def timestamps : Set UInt64 :=
  {ts | ∃ uuid e, w.added.lookup uuid = some e ∧ e.ts = ts} ∪
    {ts | ∃ uuid e, w.removed.lookup uuid = some e ∧ e.ts = ts}

theorem exists_visits_iff {V : Type} {m : UnorderedMap String V} (it : Iteration m)
    (tsOf : V → UInt64) (ts : UInt64) :
    (∃ p ∈ it.visits, tsOf p.2 = ts) ↔ ∃ uuid e, m.lookup uuid = some e ∧ tsOf e = ts := by
  constructor
  · rintro ⟨⟨uuid, e⟩, hp, hts⟩
    exact ⟨uuid, e, it.mem_iff.1 hp, hts⟩
  · rintro ⟨uuid, e, hlook, hts⟩
    exact ⟨⟨uuid, e⟩, it.mem_iff.2 hlook, hts⟩

/-- `merge` moves the clock past the timestamps of all entries of the other whiteboard. -/
theorem merge_passes (h : ∀ ts ∈ other.timestamps, ts.toNat + 1 < 2 ^ 64) :
    Passes other.timestamps w.lamportTs (w.merge other addOrder removeOrder).lamportTs := by
  have hremoteAdd : ∀ (w : CrdtWhiteboard) (p : Σ _ : String, AddEntry),
      (w.remoteAdd p.2.stroke p.2.ts p.2.peerId).lamportTs = (w.updateClock p.2.ts).lamportTs :=
    fun w p => recordAdd_lamportTs _ _ _ _
  have hremoteRemove : ∀ (w : CrdtWhiteboard) (p : Σ _ : String, RemoveEntry),
      (w.remoteRemove p.1 p.2.ts p.2.peerId).lamportTs = (w.updateClock p.2.ts).lamportTs :=
    fun w p => recordRemove_lamportTs _ _ _ _
  have hsets : other.timestamps =
      {ts | ∃ p ∈ (addOrder other.added).visits, p.2.ts = ts} ∪
        {ts | ∃ p ∈ (removeOrder other.removed).visits, p.2.ts = ts} := by
    ext ts
    simp only [timestamps, Set.mem_union, Set.mem_ofPred_eq, exists_visits_iff]
  rw [hsets] at h ⊢
  exact (foldl_passes w hremoteAdd _ fun p hp => h _ (Or.inl ⟨p, hp, rfl⟩)).trans
    (foldl_passes _ hremoteRemove _ fun p hp => h _ (Or.inr ⟨p, hp, rfl⟩))

/-- The clock after a merge is at most one ahead of all it has seen. -/
theorem merge_lamportTs {n : ℕ} (hn : n + 1 < 2 ^ 64) (hw : w.lamportTs.toNat ≤ n + 1)
    (hadd : ∀ uuid e, other.added.lookup uuid = some e → e.ts.toNat ≤ n)
    (hrem : ∀ uuid e, other.removed.lookup uuid = some e → e.ts.toNat ≤ n) :
    w.lamportTs.toNat ≤ (w.merge other addOrder removeOrder).lamportTs.toNat ∧
      (w.merge other addOrder removeOrder).lamportTs.toNat ≤ n + 1 := by
  have hle : ∀ ts ∈ other.timestamps, ts.toNat ≤ n := by
    rintro ts (⟨uuid, e, he, rfl⟩ | ⟨uuid, e, he, rfl⟩)
    · exact hadd uuid e he
    · exact hrem uuid e he
  have hpasses := w.merge_passes other addOrder removeOrder fun ts hts =>
    Nat.lt_of_le_of_lt (Nat.succ_le_succ (hle ts hts)) hn
  exact ⟨hpasses.le, hpasses.le_succ hw hle⟩

end CrdtWhiteboard

end CppMeet.Whiteboard.Crdt
