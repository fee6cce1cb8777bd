import CppMeet.Whiteboard.StateJson

/-!
# Loads that fail

`parse_json` assigns the fields of the whiteboard one after the other, as it reads them, so a load
that fails in the middle of a document leaves behind what was read up to there. `Complete` says that
a document can be read to its end, and `Agrees` that what is read of it before the first exception
is what the whiteboard holds already. A load that fails changes nothing exactly if one of the two is
true of the document (`allOrNothing_iff`). For all whiteboards at once the second one means that the
document has no peer id (`allOrNothing_forall_iff`).
-/

set_option autoImplicit false

namespace CppMeet.Whiteboard.FailedLoads

open CppMeet.Lib.HashMap CppMeet.Signaling.Document CppMeet.Whiteboard.Crdt
open CppMeet.Whiteboard.StateJson

/-- A load that fails leaves the whiteboard as it was. -/
def AllOrNothing (lib : StateLib) (w : CrdtWhiteboard) (s : String) : Prop :=
  (parseJson lib w s).2 = false → (parseJson lib w s).1 = w

/-! ## What a document holds -/

section Reading

variable {α : Type} (read : Json → Option α)

/-- The values that are read of the elements of a member, none if it is missing. -/
def valuesOf (j : Json) (key : String) : List α :=
  (j.field key).elim [] fun v => readUntil read (elements v)

/-- The member is there, and none of its elements throws. -/
def ReadsAll (j : Json) (key : String) : Prop :=
  ∃ v, j.field key = some v ∧ ∀ e ∈ elements v, (read e).isSome = true

end Reading

variable (lib : StateLib)

/-- The peer id, if it is there and a string. -/
def peerOf (j : Json) : Option String := (j.field "peer_id").bind getString

/-- The clock, if it is there and a number. -/
def clockOf (j : Json) : Option UInt64 := (j.field "lamport_ts").bind (getUInt64 lib)

/-- `added_` after the loop over `added`. -/
def addedOf (j : Json) : UnorderedMap String AddEntry :=
  insertAll ∅ ((valuesOf (readAdd lib) j "added").map fun e => ⟨e.stroke.uuid, e⟩)

/-- `removed_` after the loop over `removed`. -/
def removedOf (j : Json) : UnorderedMap String RemoveEntry :=
  insertAll ∅ ((valuesOf (readRemove lib) j "removed").map fun p => ⟨p.1, p.2⟩)

/-- Nothing throws on the way through the document. -/
structure Complete (j : Json) : Prop where
  peerId : (peerOf j).isSome = true
  clock : (clockOf lib j).isSome = true
  added : ReadsAll (readAdd lib) j "added"
  removed : ReadsAll (readRemove lib) j "removed"

/-- What is read of the document before the first exception is what the whiteboard holds. -/
structure Agrees (j : Json) (w : CrdtWhiteboard) : Prop where
  peerId : ∀ p, peerOf j = some p → p = w.peerId
  clock : (peerOf j).isSome = true → ∀ ts, clockOf lib j = some ts → ts = w.lamportTs
  added : (peerOf j).isSome = true → (clockOf lib j).isSome = true → addedOf lib j = w.added
  removed : (peerOf j).isSome = true → (clockOf lib j).isSome = true →
    ReadsAll (readAdd lib) j "added" → removedOf lib j = w.removed

/-! ## The last two members -/

variable {lib}

/-- All is read of a member that is there if each of its elements is. -/
theorem readsAll_of_field {α : Type} {read : Json → Option α} {j : Json} {key : String}
    {v : Json} (h : j.field key = some v) :
    ReadsAll read j key ↔ ∀ e ∈ elements v, (read e).isSome = true := by
  constructor
  · rintro ⟨v', hv', hall⟩
    rwa [← Option.some.inj (hv'.symm.trans h)]
  · exact fun hall => ⟨v, h, hall⟩

theorem not_readsAll {α : Type} {read : Json → Option α} {j : Json} {key : String}
    (h : j.field key = none) : ¬ ReadsAll read j key := by
  rintro ⟨v, hv, -⟩
  rw [h] at hv
  cases hv

/-- The part of `parse_json` on `removed` changes nothing else. -/
theorem parseRemoved_eq (lib : StateLib) (j : Json) (w : CrdtWhiteboard) :
    (parseRemoved lib j w).1.removed = removedOf lib j ∧
      (parseRemoved lib j w).1.added = w.added ∧ (parseRemoved lib j w).1.peerId = w.peerId ∧
      (parseRemoved lib j w).1.lamportTs = w.lamportTs ∧
      ((parseRemoved lib j w).2 = true ↔ ReadsAll (readRemove lib) j "removed") := by
  rw [parseRemoved, removedOf, valuesOf]
  cases hfield : j.field "removed" with
  | none => exact ⟨rfl, rfl, rfl, rfl, iff_of_false Bool.false_ne_true (not_readsAll hfield)⟩
  | some v =>
      rw [readsAll_of_field hfield]
      exact loadRemoved_eq lib (elements v) (clearRemoved w)

/-- The part on `added` goes on to `removed` if all of `added` was read, and stops otherwise. -/
theorem parseAdded_eq (lib : StateLib) (j : Json) (w : CrdtWhiteboard) :
    ∃ w' : CrdtWhiteboard, w'.added = addedOf lib j ∧ w'.removed = w.removed ∧
      w'.peerId = w.peerId ∧ w'.lamportTs = w.lamportTs ∧
      (ReadsAll (readAdd lib) j "added" → parseAdded lib j w = parseRemoved lib j w') ∧
      (¬ ReadsAll (readAdd lib) j "added" → parseAdded lib j w = (w', false)) := by
  rw [parseAdded, addedOf, valuesOf]
  cases hfield : j.field "added" with
  | none =>
      -- the document has no such array, and the entries are gone already
      exact ⟨clearAdded w, rfl, rfl, rfl, rfl, fun h => absurd h (not_readsAll hfield),
        fun _ => rfl⟩
  | some v =>
      obtain ⟨hadded, hremoved, hpeer, hclock, hall⟩ :=
        loadAdded_eq lib (elements v) (clearAdded w)
      rw [readsAll_of_field hfield, ← hall]
      refine ⟨_, hadded, hremoved, hpeer, hclock, ?_, ?_⟩
      · -- every entry is read, and the removals come next
        intro hok
        dsimp only
        rw [show loadAdded lib (clearAdded w) (elements v) =
          ((loadAdded lib (clearAdded w) (elements v)).1, true) from Prod.ext rfl hok]
      · -- the entries up to the first bad one stay loaded
        intro hfail
        dsimp only
        rw [show loadAdded lib (clearAdded w) (elements v) =
          ((loadAdded lib (clearAdded w) (elements v)).1, false) from
            Prod.ext rfl (Bool.eq_false_iff.2 hfail)]

theorem board_eq_iff {w w' : CrdtWhiteboard} :
    w' = w ↔ w'.peerId = w.peerId ∧ w'.lamportTs = w.lamportTs ∧ w'.added = w.added ∧
      w'.removed = w.removed := by
  constructor
  · rintro rfl
    exact ⟨rfl, rfl, rfl, rfl⟩
  · rintro ⟨hpeer, hclock, hadded, hremoved⟩
    exact board_ext hpeer hclock hadded hremoved

/-- From the two maps on, a load succeeds on a document whose elements can all be read, and leaves
the maps read so far. -/
theorem parseAdded_iff (j : Json) (w : CrdtWhiteboard) (p : String) (ts : UInt64) :
    ((parseAdded lib j { w with peerId := p, lamportTs := ts }).2 = false →
        (parseAdded lib j { w with peerId := p, lamportTs := ts }).1 = w) ↔
      ReadsAll (readAdd lib) j "added" ∧ ReadsAll (readRemove lib) j "removed" ∨
        p = w.peerId ∧ ts = w.lamportTs ∧ addedOf lib j = w.added ∧
          (ReadsAll (readAdd lib) j "added" → removedOf lib j = w.removed) := by
  obtain ⟨w', hadded, hremoved, hpeer, hclock, hgoes, hstops⟩ :=
    parseAdded_eq lib j { w with peerId := p, lamportTs := ts }
  by_cases hall : ReadsAll (readAdd lib) j "added"
  · obtain ⟨hremoved', hadded', hpeer', hclock', hok⟩ := parseRemoved_eq lib j w'
    rw [hgoes hall, board_eq_iff, hpeer', hclock', hadded', hremoved', hpeer, hclock, hadded,
      ← Bool.not_eq_true, hok]
    by_cases hrem : ReadsAll (readRemove lib) j "removed"
    · exact iff_of_true (fun h => absurd hrem h) (Or.inl ⟨hall, hrem⟩)
    · simp only [hall, hrem, not_false_eq_true, true_imp_iff, and_false, false_or]
  · rw [hstops hall, board_eq_iff, hpeer, hclock, hadded, hremoved]
    simp only [hall, true_imp_iff, false_and, false_or, false_imp_iff, and_true]

/-! ## The whole load -/

/-- Without a peer id nothing is assigned. -/
theorem agrees_of_no_peer {j : Json} (w : CrdtWhiteboard) (h : peerOf j = none) :
    Agrees lib j w := by
  have hnone : (peerOf j).isSome ≠ true := by
    rw [h]
    nofun
  refine ⟨fun p hp => ?_, fun hsome => absurd hsome hnone, fun hsome => absurd hsome hnone,
    fun hsome => absurd hsome hnone⟩
  rw [h] at hp
  cases hp

/-- Without a clock only the peer id is assigned. -/
theorem agrees_iff_of_no_clock {j : Json} (w : CrdtWhiteboard) {p : String}
    (hpeer : peerOf j = some p) (h : clockOf lib j = none) : Agrees lib j w ↔ p = w.peerId := by
  have hnone : (clockOf lib j).isSome ≠ true := by
    rw [h]
    nofun
  constructor
  · exact fun hagrees => hagrees.peerId p hpeer
  · intro hsame
    refine ⟨fun p' hp' => ?_, fun _ ts hts => ?_, fun _ hsome => absurd hsome hnone,
      fun _ hsome => absurd hsome hnone⟩
    · rwa [← Option.some.inj (hpeer.symm.trans hp')]
    · rw [h] at hts
      cases hts

/-- The condition, once the peer id and the clock have been read. -/
theorem complete_or_agrees_iff {j : Json} {w : CrdtWhiteboard} {p : String} {ts : UInt64}
    (hpeer : peerOf j = some p) (hclock : clockOf lib j = some ts) :
    Complete lib j ∨ Agrees lib j w ↔
      ReadsAll (readAdd lib) j "added" ∧ ReadsAll (readRemove lib) j "removed" ∨
        p = w.peerId ∧ ts = w.lamportTs ∧ addedOf lib j = w.added ∧
          (ReadsAll (readAdd lib) j "added" → removedOf lib j = w.removed) := by
  have hp : (peerOf j).isSome = true := by
    rw [hpeer]
    rfl
  have hts : (clockOf lib j).isSome = true := by
    rw [hclock]
    rfl
  apply or_congr
  · exact ⟨fun h => ⟨h.added, h.removed⟩, fun h => ⟨hp, hts, h.1, h.2⟩⟩
  · constructor
    · intro h
      exact ⟨h.peerId p hpeer, h.clock hp ts hclock, h.added hp hts, h.removed hp hts⟩
    · rintro ⟨hpeer', hclock', hadded, hremoved⟩
      refine ⟨fun p' hp' => ?_, fun _ ts' hts' => ?_, fun _ _ => hadded, fun _ _ => hremoved⟩
      · rwa [← Option.some.inj (hpeer.symm.trans hp')]
      · rwa [← Option.some.inj (hclock.symm.trans hts')]

/-- `parse_json` on a document, by what its first two members hold. -/
theorem allOrNothing_of_parse {w : CrdtWhiteboard} {s : String} {j : Json}
    (hparse : lib.parse s = some j) :
    AllOrNothing lib w s ↔ Complete lib j ∨ Agrees lib j w := by
  rw [AllOrNothing, parseJson, hparse]
  dsimp only
  cases hpeer : (j.field "peer_id").bind getString with
  | none => exact iff_of_true (fun _ => rfl) (Or.inr (agrees_of_no_peer w hpeer))
  | some p =>
      dsimp only
      cases hclock : (j.field "lamport_ts").bind (getUInt64 lib) with
      | none =>
          have hcomplete : ¬ Complete lib j := by
            intro h
            have hsome := h.clock
            rw [clockOf, hclock] at hsome
            cases hsome
          rw [or_iff_right hcomplete, agrees_iff_of_no_clock w hpeer hclock, board_eq_iff]
          exact ⟨fun h => (h rfl).1, fun h _ => ⟨h, rfl, rfl, rfl⟩⟩
      | some ts => exact (parseAdded_iff j w p ts).trans (complete_or_agrees_iff hpeer hclock).symm

/-- A whiteboard with another peer id does not agree with a document that has one. -/
theorem exists_not_agrees {j : Json} (h : peerOf j ≠ none) :
    ∃ w : CrdtWhiteboard, ¬ Agrees lib j w := by
  obtain ⟨p, hp⟩ := Option.ne_none_iff_exists'.1 h
  refine ⟨.ofPeer (p ++ "0"), fun hagrees => ?_⟩
  have hlength := congrArg String.length (hagrees.peerId p hp)
  rw [CrdtWhiteboard.ofPeer, String.length_append] at hlength
  exact absurd hlength (Nat.ne_of_lt (Nat.lt_succ_self _))

/-- A text leaves every whiteboard alone when its load fails exactly if it is malformed, its
document is complete, or the document has no peer id. -/
theorem allOrNothing_forall_iff (lib : StateLib) (s : String) :
    (∀ w, AllOrNothing lib w s) ↔
      ∀ j, lib.parse s = some j → Complete lib j ∨ peerOf j = none := by
  cases hparse : lib.parse s with
  | none =>
      refine iff_of_true (fun w _ => ?_) nofun
      rw [parseJson, hparse]
  | some j =>
      have hboards : (∀ w, AllOrNothing lib w s) ↔ ∀ w, Complete lib j ∨ Agrees lib j w :=
        forall_congr' fun w => allOrNothing_of_parse hparse
      rw [hboards]
      constructor
      · rintro hall _ ⟨⟩
        by_contra hneither
        rw [not_or] at hneither
        obtain ⟨w, hw⟩ : ∃ w, ¬ Agrees lib j w := exists_not_agrees hneither.2
        exact (hall w).elim hneither.1 hw
      · intro h w
        exact (h j rfl).imp_right (agrees_of_no_peer w)

/-- For every whiteboard and every text, a load that fails changes nothing exactly if the text is
malformed, its document is complete (the load succeeds), or what is read of the document agrees with
the whiteboard. -/
theorem allOrNothing_iff (lib : StateLib) (w : CrdtWhiteboard) (s : String) :
    AllOrNothing lib w s ↔
      ∀ j, lib.parse s = some j → Complete lib j ∨ Agrees lib j w := by
  cases hparse : lib.parse s with
  | none =>
      refine iff_of_true (fun _ => ?_) nofun
      rw [parseJson, hparse]
  | some j =>
      rw [allOrNothing_of_parse hparse]
      exact ⟨fun h j' hj' => Option.some.inj hj' ▸ h, fun h => h j rfl⟩

/-! ## A document that is cut short -/

/-- A document that ends behind its peer id. -/
def cutText : String := "\x7b\"peer_id\":\"B\"\x7d"

/-- The library on this one text. -/
def cutLib : StateLib :=
  { sampleLib with
    parse := fun s => if s = cutText then some (.obj [("peer_id", .str "B")]) else none }

/-- A document without a clock leaves its peer id behind. -/
theorem not_allOrNothing_cutText :
    ¬ ∀ (lib : StateLib) (w : CrdtWhiteboard) (s : String), AllOrNothing lib w s := by
  intro h
  have hsame := h cutLib (.ofPeer "A") cutText
  have hparse : parseJson cutLib (.ofPeer "A") cutText = (.ofPeer "B", false) := rfl
  rw [AllOrNothing, hparse] at hsame
  have hpeer := congrArg CrdtWhiteboard.peerId (hsame rfl)
  revert hpeer
  decide

end CppMeet.Whiteboard.FailedLoads
