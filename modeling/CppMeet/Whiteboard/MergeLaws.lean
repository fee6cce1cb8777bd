import CppMeet.Whiteboard.Crdt

/-!
# Merging is a join

What `merge` does to the two maps is the key-by-key join of `LastWriter`, whatever the clocks of
the two whiteboards are and in whatever order the hash maps are visited. It is therefore
associative and idempotent, and commutative for whiteboards that `Agree`: an entry of one and an
entry of the other that have the same uuid and the same stamp hold the same stroke (`merge_laws`).
On the way, no turn of the loops replaces an entry by one with a smaller stamp (`Ascends`).
-/

set_option autoImplicit false

namespace CppMeet.Whiteboard.MergeLaws

open CppMeet.Lib CppMeet.Lib.HashMap CppMeet.Lib.LastWriter CppMeet.Whiteboard.Crdt

/-- The two maps of a whiteboard. -/
def contents (w : CrdtWhiteboard) :
    UnorderedMap String AddEntry × UnorderedMap String RemoveEntry :=
  (w.added, w.removed)

/-- Entries of the two whiteboards with the same uuid, timestamp and peer carry the same stroke. -/
def Agree (a b : CrdtWhiteboard) : Prop :=
  ∀ uuid e e', a.added.lookup uuid = some e → b.added.lookup uuid = some e' →
    e.ts = e'.ts → e.peerId = e'.peerId → e.stroke = e'.stroke

/-- No entry of `w` has been lost in `w'`, or given way to one with a smaller stamp. -/
structure Ascends (w w' : CrdtWhiteboard) : Prop where
  added : LastWriter.Ascends AddEntry.stamp w.added w'.added
  removed : LastWriter.Ascends RemoveEntry.stamp w.removed w'.removed

/-! ## The turns of the loops -/

theorem Ascends.refl (w : CrdtWhiteboard) : Ascends w w where
  added := LastWriter.Ascends.refl w.added
  removed := LastWriter.Ascends.refl w.removed

theorem Ascends.trans {w w' w'' : CrdtWhiteboard} (h : Ascends w w') (h' : Ascends w' w'') :
    Ascends w w'' where
  added := h.added.trans h'.added
  removed := h.removed.trans h'.removed

theorem ascends_remoteAdd (w : CrdtWhiteboard) (s : Stroke) (ts : UInt64) (peerId : String) :
    Ascends w (w.remoteAdd s ts peerId) where
  added := by
    rw [CrdtWhiteboard.remoteAdd, CrdtWhiteboard.recordAdd_added,
      CrdtWhiteboard.updateClock_added]
    exact ascends_offerAt AddEntry.stamp w.added s.uuid ⟨s, ts, peerId⟩
  removed := by
    rw [CrdtWhiteboard.remoteAdd, CrdtWhiteboard.recordAdd_removed,
      CrdtWhiteboard.updateClock_removed]
    exact LastWriter.Ascends.refl w.removed

theorem ascends_remoteRemove (w : CrdtWhiteboard) (uuid : String) (ts : UInt64)
    (peerId : String) : Ascends w (w.remoteRemove uuid ts peerId) where
  added := by
    rw [CrdtWhiteboard.remoteRemove, CrdtWhiteboard.recordRemove_added,
      CrdtWhiteboard.updateClock_added]
    exact LastWriter.Ascends.refl w.added
  removed := by
    rw [CrdtWhiteboard.remoteRemove, CrdtWhiteboard.recordRemove_removed,
      CrdtWhiteboard.updateClock_removed]
    exact ascends_offerAt RemoveEntry.stamp w.removed uuid ⟨ts, peerId⟩

/-- A loop whose every turn ascends. -/
theorem ascends_foldl {α : Type} {turn : CrdtWhiteboard → α → CrdtWhiteboard}
    (hturn : ∀ w x, Ascends w (turn w x)) (l : List α) (w : CrdtWhiteboard) :
    Ascends w (l.foldl turn w) := by
  induction l generalizing w with
  | nil => exact Ascends.refl w
  | cons x l ih => exact (hturn w x).trans (ih (turn w x))

theorem ascends_mergeAdded (w : CrdtWhiteboard) (l : List (Σ _ : String, AddEntry)) :
    Ascends w (w.mergeAdded l) := by
  apply ascends_foldl
  intro w p
  exact ascends_remoteAdd w p.2.stroke p.2.ts p.2.peerId

theorem ascends_mergeRemoved (w : CrdtWhiteboard) (l : List (Σ _ : String, RemoveEntry)) :
    Ascends w (w.mergeRemoved l) := by
  apply ascends_foldl
  intro w p
  exact ascends_remoteRemove w p.1 p.2.ts p.2.peerId

/-! ## The laws -/

/-- Two whiteboards hold the same maps when each register is the same. -/
theorem contents_ext {a b : CrdtWhiteboard}
    (hadded : ∀ uuid, a.added.lookup uuid = b.added.lookup uuid)
    (hremoved : ∀ uuid, a.removed.lookup uuid = b.removed.lookup uuid) :
    contents a = contents b :=
  Prod.ext (Finmap.ext_lookup hadded) (Finmap.ext_lookup hremoved)

/-- Entries that agree and have the same stamp are equal. -/
theorem Agree.eq_of_stamp {a b : CrdtWhiteboard} (h : Agree a b) {uuid : String} {e e' : AddEntry}
    (he : a.added.lookup uuid = some e) (he' : b.added.lookup uuid = some e')
    (hstamp : e.stamp = e'.stamp) : e = e' := by
  obtain ⟨hts, hpeer⟩ := stampOf_inj.1 hstamp
  have hstroke := h uuid e e' he he' hts hpeer
  cases e
  cases e'
  simp only at hts hpeer hstroke
  rw [hts, hpeer, hstroke]

theorem RemoveEntry.eq_of_stamp {e e' : RemoveEntry} (hstamp : e.stamp = e'.stamp) : e = e' := by
  obtain ⟨hts, hpeer⟩ := stampOf_inj.1 hstamp
  cases e
  cases e'
  simp only at hts hpeer
  rw [hts, hpeer]

section Laws

variable {a b c : CrdtWhiteboard} (addOrder addOrder' : IterOrder String AddEntry)
  (removeOrder removeOrder' : IterOrder String RemoveEntry)

theorem contents_merge_comm (h : Agree a b) :
    contents (a.merge b addOrder removeOrder) = contents (b.merge a addOrder' removeOrder') := by
  apply contents_ext
  · intro uuid
    rw [CrdtWhiteboard.merge_added, CrdtWhiteboard.merge_added]
    -- the two orders differ at most in which of two entries with one stamp is kept
    apply join_comm
    intro e e' he he' hstamp
    exact h.eq_of_stamp he he' hstamp
  · intro uuid
    rw [CrdtWhiteboard.merge_removed, CrdtWhiteboard.merge_removed]
    -- a removal is nothing but its stamp, so no agreement is needed
    apply join_comm
    intro e e' _ _ hstamp
    exact RemoveEntry.eq_of_stamp hstamp

theorem contents_merge_assoc :
    contents ((a.merge b addOrder removeOrder).merge c addOrder removeOrder) =
      contents (a.merge (b.merge c addOrder' removeOrder') addOrder' removeOrder') := by
  apply contents_ext
  · intro uuid
    simp only [CrdtWhiteboard.merge_added, join_assoc]
  · intro uuid
    simp only [CrdtWhiteboard.merge_removed, join_assoc]

/-- A whiteboard merged with itself stays as it is. -/
theorem contents_merge_self : contents (a.merge a addOrder removeOrder) = contents a := by
  apply contents_ext
  · intro uuid
    rw [CrdtWhiteboard.merge_added, join_self]
  · intro uuid
    rw [CrdtWhiteboard.merge_removed, join_self]

/-- A second merge of the same whiteboard adds nothing. -/
theorem contents_merge_again :
    contents ((a.merge b addOrder removeOrder).merge b addOrder' removeOrder') =
      contents (a.merge b addOrder removeOrder) := by
  apply contents_ext
  · intro uuid
    simp only [CrdtWhiteboard.merge_added, join_assoc, join_self]
  · intro uuid
    simp only [CrdtWhiteboard.merge_removed, join_assoc, join_self]

/-- The order in which the maps are visited does not matter. -/
theorem contents_merge_order :
    contents (a.merge b addOrder removeOrder) = contents (a.merge b addOrder' removeOrder') := by
  apply contents_ext
  · intro uuid
    rw [CrdtWhiteboard.merge_added, CrdtWhiteboard.merge_added]
  · intro uuid
    rw [CrdtWhiteboard.merge_removed, CrdtWhiteboard.merge_removed]

end Laws

/-- Merging is a join of the two maps. For whiteboards that agree it is commutative, and it is
associative and idempotent and does not depend on the iteration order of the hash maps. Neither the
whole merge nor one of the updates it is made of replaces an entry by one with a smaller stamp. -/
theorem merge_laws (a b c : CrdtWhiteboard) (h : Agree a b)
    (addOrder addOrder' : IterOrder String AddEntry)
    (removeOrder removeOrder' : IterOrder String RemoveEntry) :
    contents (a.merge b addOrder removeOrder) = contents (b.merge a addOrder' removeOrder') ∧
      contents ((a.merge b addOrder removeOrder).merge c addOrder removeOrder) =
        contents (a.merge (b.merge c addOrder' removeOrder') addOrder' removeOrder') ∧
      contents (a.merge a addOrder removeOrder) = contents a ∧
      contents ((a.merge b addOrder removeOrder).merge b addOrder' removeOrder') =
        contents (a.merge b addOrder removeOrder) ∧
      contents (a.merge b addOrder removeOrder) = contents (a.merge b addOrder' removeOrder') ∧
      Ascends a (a.merge b addOrder removeOrder) ∧
      (∀ w s ts peerId, Ascends w (CrdtWhiteboard.remoteAdd w s ts peerId)) ∧
      ∀ w uuid ts peerId, Ascends w (CrdtWhiteboard.remoteRemove w uuid ts peerId) := by
  refine ⟨?_, ?_, ?_, ?_, ?_, ?_, ?_, ?_⟩
  · exact contents_merge_comm addOrder addOrder' removeOrder removeOrder' h
  · exact contents_merge_assoc addOrder addOrder' removeOrder removeOrder'
  · exact contents_merge_self addOrder removeOrder
  · exact contents_merge_again addOrder addOrder' removeOrder removeOrder'
  · exact contents_merge_order addOrder addOrder' removeOrder removeOrder'
  · exact (ascends_mergeAdded a _).trans (ascends_mergeRemoved _ _)
  · exact ascends_remoteAdd
  · exact ascends_remoteRemove

/-- Two peers have drawn a stroke under the same uuid. -/
def drawnBy (peerId : String) (color : UInt32) : CrdtWhiteboard :=
  (CrdtWhiteboard.ofPeer peerId).localAdd { uuid := "s", color }

theorem drawnBy_added {peerId : String} {color : UInt32} {uuid : String} {e : AddEntry}
    (he : (drawnBy peerId color).added.lookup uuid = some e) : e.peerId = peerId := by
  rw [drawnBy, CrdtWhiteboard.localAdd, CrdtWhiteboard.recordAdd_added, lookup_offerAt] at he
  split at he
  · obtain rfl := Option.some.inj he
    rfl
  · cases he

theorem agree_drawnBy : Agree (drawnBy "A" 1) (drawnBy "B" 2) := by
  intro uuid e e' he he' _ hpeer
  rw [drawnBy_added he, drawnBy_added he'] at hpeer
  exact absurd hpeer (by decide)

theorem merge_laws_drawn :
    contents ((drawnBy "A" 1).merge (drawnBy "B" 2) someVisits someVisits) =
      contents ((drawnBy "B" 2).merge (drawnBy "A" 1) someVisits someVisits) :=
  (merge_laws (drawnBy "A" 1) (drawnBy "B" 2) (drawnBy "A" 1) agree_drawnBy someVisits someVisits
    someVisits someVisits).1

end CppMeet.Whiteboard.MergeLaws
