import CppMeet.Signaling.Document
import CppMeet.Whiteboard.Crdt

/-!
# The state as a JSON text

`serializeJson` writes a whiteboard as one JSON document and `parseJson` replaces a whiteboard by
what it reads. The document lists the entries of `added_` without their keys, which `parseJson`
takes from the uuid of the stroke. An exception of the JSON library ends `parseJson` where it
occurs: what was assigned before stays assigned.

The text of a document, the way back and the conversions between number types belong to the
library and the compiler, and `StateLib` names them. If the library gives back the document that it
dumped, `parseJson` restores peer id, clock and removals exactly and every stroke up to the passage
of its floats through `double` (`parseJson_serializeJson`). A whiteboard whose floats are finite
therefore comes back as it was (`parse_restores`).
-/

set_option autoImplicit false

namespace CppMeet.Whiteboard.StateJson

open CppMeet.Lib.HashMap CppMeet.Lib.LastWriter CppMeet.Signaling.Document
open CppMeet.Whiteboard.Crdt

/-- What the two functions take from the JSON library, where `none` is a `parse_error`, and the
conversions between number types. -/
structure StateLib where
  dump : Json → String
  parse : String → Option Json
  floatToDouble : FloatBits → UInt64
  doubleToFloat : UInt64 → FloatBits
  intToFloat : Int64 → FloatBits
  uintToFloat : UInt64 → FloatBits
  doubleToUInt32 : UInt64 → UInt32
  doubleToUInt64 : UInt64 → UInt64

/-! ## Writing -/

section Writing

variable (lib : StateLib)

/-- A point as an object of two numbers. -/
def pointJson (p : Point) : Json :=
  .obj [("x", .float (lib.floatToDouble p.x)), ("y", .float (lib.floatToDouble p.y))]

/-- An element of `added`. The members of an object stand in key order. -/
def addJson (e : AddEntry) : Json :=
  .obj [("color", .uint e.stroke.color.toUInt64), ("peer_id", .str e.peerId),
    ("points", .arr (e.stroke.points.map (pointJson lib))), ("ts", .uint e.ts),
    ("uuid", .str e.stroke.uuid), ("width", .float (lib.floatToDouble e.stroke.width))]

/-- An element of `removed`. -/
def removeJson (uuid : String) (e : RemoveEntry) : Json :=
  .obj [("peer_id", .str e.peerId), ("ts", .uint e.ts), ("uuid", .str uuid)]

/-- The document of a whiteboard. -/
def stateJson (w : CrdtWhiteboard) (addOrder : IterOrder String AddEntry)
    (removeOrder : IterOrder String RemoveEntry) : Json :=
  .obj [("added", .arr ((addOrder w.added).visits.map fun p => addJson lib p.2)),
    ("lamport_ts", .uint w.lamportTs), ("peer_id", .str w.peerId),
    ("removed", .arr ((removeOrder w.removed).visits.map fun p => removeJson p.1 p.2))]

/-- `serialize_json`. -/
def serializeJson (w : CrdtWhiteboard) (addOrder : IterOrder String AddEntry)
    (removeOrder : IterOrder String RemoveEntry) : String :=
  lib.dump (stateJson lib w addOrder removeOrder)

end Writing

/-! ## Reading -/

section Reading

variable (lib : StateLib)

/-- The values that `for (auto& e : j)` visits. A value that is no container is visited itself. -/
def elements : Json → List Json
  | .arr elems => elems
  | .obj members => members.map Prod.snd
  | .null => []
  | j => [j]

/-- `j.get<std::string>()` -/
def getString : Json → Option String
  | .str s => some s
  | _ => none

/-- `j.get<uint64_t>()`, which casts every number -/
def getUInt64 : Json → Option UInt64
  | .uint n => some n
  | .int n => some n.toUInt64
  | .float bits => some (lib.doubleToUInt64 bits)
  | _ => none

/-- `j.get<uint32_t>()`, which also takes a boolean -/
def getUInt32 : Json → Option UInt32
  | .uint n => some n.toUInt32
  | .int n => some n.toUInt64.toUInt32
  | .float bits => some (lib.doubleToUInt32 bits)
  | .bool b => some (if b then 1 else 0)
  | _ => none

/-- `j.get<float>()`; the bits of `1.0f` stand for `true` -/
def getFloat : Json → Option FloatBits
  | .float bits => some (lib.doubleToFloat bits)
  | .int n => some (lib.intToFloat n)
  | .uint n => some (lib.uintToFloat n)
  | .bool b => some (if b then 0x3F800000 else 0)
  | _ => none

/-- A point, if both its coordinates are numbers. -/
def readPoint (p : Json) : Option Point := do
  let x ← (p.field "x").bind (getFloat lib)
  let y ← (p.field "y").bind (getFloat lib)
  return ⟨x, y⟩

/-- A stroke, if every member that is read is there with its type. -/
def readStroke (e : Json) : Option Stroke := do
  let uuid ← (e.field "uuid").bind getString
  let color ← (e.field "color").bind (getUInt32 lib)
  let width ← (e.field "width").bind (getFloat lib)
  let points ← (e.field "points").bind fun pts => (elements pts).mapM (readPoint lib)
  return { uuid, points, color, width }

/-- An element of `added`. -/
def readAdd (e : Json) : Option AddEntry := do
  let stroke ← readStroke lib e
  let ts ← (e.field "ts").bind (getUInt64 lib)
  let peerId ← (e.field "peer_id").bind getString
  return ⟨stroke, ts, peerId⟩

/-- An element of `removed`. -/
def readRemove (e : Json) : Option (String × RemoveEntry) := do
  let uuid ← (e.field "uuid").bind getString
  let ts ← (e.field "ts").bind (getUInt64 lib)
  let peerId ← (e.field "peer_id").bind getString
  return (uuid, ⟨ts, peerId⟩)

/-- `added_.clear()` -/
def clearAdded (w : CrdtWhiteboard) : CrdtWhiteboard :=
  { w with added := ∅, keyed := CrdtWhiteboard.keyed_empty }

/-- `removed_.clear()` -/
def clearRemoved (w : CrdtWhiteboard) : CrdtWhiteboard := { w with removed := ∅ }

/-- The loop over `added`, which ends with the first element that throws. The whiteboard comes with
`true` when all elements were read. -/
def loadAdded (w : CrdtWhiteboard) : List Json → CrdtWhiteboard × Bool
  | [] => (w, true)
  | e :: rest =>
      match readAdd lib e with
      | none => (w, false)
      | some entry => loadAdded (w.putAdded entry) rest

/-- The loop over `removed`. -/
def loadRemoved (w : CrdtWhiteboard) : List Json → CrdtWhiteboard × Bool
  | [] => (w, true)
  | e :: rest =>
      match readRemove lib e with
      | none => (w, false)
      | some (uuid, entry) => loadRemoved { w with removed := w.removed.insert uuid entry } rest

/-- `parse_json` from `removed_.clear()` on. -/
def parseRemoved (j : Json) (w : CrdtWhiteboard) : CrdtWhiteboard × Bool :=
  match j.field "removed" with
  | none => (clearRemoved w, false)
  | some elems => loadRemoved lib (clearRemoved w) (elements elems)

/-- `parse_json` from `added_.clear()` on. -/
def parseAdded (j : Json) (w : CrdtWhiteboard) : CrdtWhiteboard × Bool :=
  match j.field "added" with
  | none => (clearAdded w, false)
  | some elems =>
      match loadAdded lib (clearAdded w) (elements elems) with
      -- the loop has thrown, and `removed_` is not cleared
      | (w, false) => (w, false)
      | (w, true) => parseRemoved lib j w

/-- The whiteboard that `parse_json` leaves behind, and the value it returns. -/
def parseJson (w : CrdtWhiteboard) (s : String) : CrdtWhiteboard × Bool :=
  match lib.parse s with
  | none => (w, false)
  | some j =>
      match (j.field "peer_id").bind getString with
      | none => (w, false)
      | some peerId =>
          match (j.field "lamport_ts").bind (getUInt64 lib) with
          -- the peer id stays assigned
          | none => ({ w with peerId }, false)
          | some lamportTs => parseAdded lib j { w with peerId, lamportTs }

end Reading

/-! ## The two loops -/

section Loops

variable {α β : Type} (read : Json → Option α)

/-- The values of the elements before the first one that throws. -/
def readUntil : List Json → List α
  | [] => []
  | e :: rest =>
      match read e with
      | none => []
      | some a => a :: readUntil rest

theorem readUntil_map {write : β → Json} {g : β → α} (h : ∀ b, read (write b) = some (g b))
    (l : List β) : readUntil read (l.map write) = l.map g := by
  induction l with
  | nil => rfl
  | cons b l ih => rw [List.map_cons, List.map_cons, readUntil, h, ih]

variable (lib : StateLib)

/-- The loop over `added` writes the entries up to the first element that throws. -/
theorem loadAdded_eq (l : List Json) (w : CrdtWhiteboard) :
    (loadAdded lib w l).1.added =
        insertAll w.added ((readUntil (readAdd lib) l).map fun e => ⟨e.stroke.uuid, e⟩) ∧
      (loadAdded lib w l).1.removed = w.removed ∧ (loadAdded lib w l).1.peerId = w.peerId ∧
      (loadAdded lib w l).1.lamportTs = w.lamportTs ∧
      ((loadAdded lib w l).2 = true ↔ ∀ e ∈ l, (readAdd lib e).isSome = true) := by
  induction l generalizing w with
  | nil => exact ⟨rfl, rfl, rfl, rfl, iff_of_true rfl (List.forall_mem_nil _)⟩
  | cons e rest ih =>
      rw [loadAdded, readUntil, List.forall_mem_cons]
      cases hread : readAdd lib e with
      | none =>
          exact ⟨rfl, rfl, rfl, rfl,
            iff_of_false Bool.false_ne_true fun h => Bool.false_ne_true h.1⟩
      | some entry =>
          obtain ⟨hadded, hremoved, hpeer, hclock, hall⟩ := ih (w.putAdded entry)
          exact ⟨hadded, hremoved, hpeer, hclock, hall.trans (iff_and_self.2 fun _ => rfl)⟩

/-- The loop over `removed` reads until something throws. -/
theorem loadRemoved_eq (l : List Json) (w : CrdtWhiteboard) :
    (loadRemoved lib w l).1.removed =
        insertAll w.removed ((readUntil (readRemove lib) l).map fun p => ⟨p.1, p.2⟩) ∧
      (loadRemoved lib w l).1.added = w.added ∧ (loadRemoved lib w l).1.peerId = w.peerId ∧
      (loadRemoved lib w l).1.lamportTs = w.lamportTs ∧
      ((loadRemoved lib w l).2 = true ↔ ∀ e ∈ l, (readRemove lib e).isSome = true) := by
  induction l generalizing w with
  | nil => exact ⟨rfl, rfl, rfl, rfl, iff_of_true rfl (List.forall_mem_nil _)⟩
  | cons e rest ih =>
      rw [loadRemoved, readUntil, List.forall_mem_cons]
      cases hread : readRemove lib e with
      | none =>
          exact ⟨rfl, rfl, rfl, rfl,
            iff_of_false Bool.false_ne_true fun h => Bool.false_ne_true h.1⟩
      | some p =>
          obtain ⟨hremoved, hadded, hpeer, hclock, hall⟩ :=
            ih { w with removed := w.removed.insert p.1 p.2 }
          exact ⟨hremoved, hadded, hpeer, hclock, hall.trans (iff_and_self.2 fun _ => rfl)⟩

end Loops

/-! ## Reading what was written -/

section RoundTrip

/-- The library gives back the document that it dumped. -/
def StateLib.Reproduces (lib : StateLib) (j : Json) : Prop := lib.parse (lib.dump j) = some j

variable {lib : StateLib}

/-- A `float` after its passage through `double`. -/
def viaDouble (lib : StateLib) (bits : FloatBits) : FloatBits :=
  lib.doubleToFloat (lib.floatToDouble bits)

/-- A point after its coordinates went through the document. -/
def reloadPoint (lib : StateLib) (p : Point) : Point := ⟨viaDouble lib p.x, viaDouble lib p.y⟩

/-- A stroke after its numbers went through the document. -/
def reloadStroke (lib : StateLib) (s : Stroke) : Stroke :=
  { s with points := s.points.map (reloadPoint lib), width := viaDouble lib s.width }

/-- The entry that is read where `e` was written. -/
def reload (lib : StateLib) (e : AddEntry) : AddEntry :=
  { e with stroke := reloadStroke lib e.stroke }

/-- Points that were written are read back. -/
theorem mapM_pointJson (points : List Point) :
    (points.map (pointJson lib)).mapM (readPoint lib) = some (points.map (reloadPoint lib)) := by
  induction points with
  | nil => rfl
  | cons p points ih =>
      have hp : readPoint lib (pointJson lib p) = some (reloadPoint lib p) := rfl
      rw [List.map_cons, List.mapM_cons, hp, ih]
      rfl

/-- An addition that was written is read back, with its numbers as doubles. -/
theorem readAdd_addJson (e : AddEntry) : readAdd lib (addJson lib e) = some (reload lib e) := by
  have hcolor : ((addJson lib e).field "color").bind (getUInt32 lib) = some e.stroke.color := by
    change some e.stroke.color.toUInt64.toUInt32 = _
    rw [UInt32.toUInt32_toUInt64]
  have hpoints : ((addJson lib e).field "points").bind
      (fun pts => (elements pts).mapM (readPoint lib)) =
        some (e.stroke.points.map (reloadPoint lib)) := mapM_pointJson e.stroke.points
  have hstroke : readStroke lib (addJson lib e) = some (reloadStroke lib e.stroke) := by
    rw [readStroke, hcolor, hpoints]
    rfl
  rw [readAdd, hstroke]
  rfl

theorem readRemove_removeJson (uuid : String) (e : RemoveEntry) :
    readRemove lib (removeJson uuid e) = some (uuid, e) := rfl

/-- Only `added_` changes in the first loop, where the entries are written one after the other. -/
theorem loadAdded_addJson (lib : StateLib) (l : List (Σ _ : String, AddEntry))
    (hl : ∀ p ∈ l, p.2.stroke.uuid = p.1) (w : CrdtWhiteboard) :
    ∃ w', loadAdded lib w (l.map fun p => addJson lib p.2) = (w', true) ∧
      w'.added = insertAll w.added (l.map (.map id fun _ => reload lib)) ∧
      w'.removed = w.removed ∧ w'.peerId = w.peerId ∧ w'.lamportTs = w.lamportTs := by
  obtain ⟨hadded, hremoved, hpeer, hclock, hall⟩ :=
    loadAdded_eq lib (l.map fun p => addJson lib p.2) w
  rw [readUntil_map _ fun p : Σ _ : String, AddEntry => readAdd_addJson p.2, List.map_map]
    at hadded
  refine ⟨_, Prod.ext rfl (hall.2 fun e he => ?_), ?_, hremoved, hpeer, hclock⟩
  · obtain ⟨p, -, rfl⟩ := List.mem_map.1 he
    rw [readAdd_addJson]
    rfl
  · rw [hadded]
    congr 1
    apply List.map_congr_left
    intro p hp
    -- the key is not in the document, but the stroke has it as its uuid
    have huuid : (reload lib p.2).stroke.uuid = p.1 := hl p hp
    change (⟨(reload lib p.2).stroke.uuid, reload lib p.2⟩ : Σ _ : String, AddEntry) = _
    rw [huuid]
    rfl

/-- Removals that were written are all read back. -/
theorem loadRemoved_removeJson (lib : StateLib) (l : List (Σ _ : String, RemoveEntry))
    (w : CrdtWhiteboard) :
    ∃ w', loadRemoved lib w (l.map fun p => removeJson p.1 p.2) = (w', true) ∧
      w'.removed = insertAll w.removed l ∧ w'.added = w.added ∧ w'.peerId = w.peerId ∧
      w'.lamportTs = w.lamportTs := by
  obtain ⟨hremoved, hadded, hpeer, hclock, hall⟩ :=
    loadRemoved_eq lib (l.map fun p => removeJson p.1 p.2) w
  rw [readUntil_map _ fun p : Σ _ : String, RemoveEntry => readRemove_removeJson p.1 p.2,
    List.map_map] at hremoved
  refine ⟨_, Prod.ext rfl (hall.2 fun e he => ?_), ?_, hadded, hpeer, hclock⟩
  · obtain ⟨p, -, rfl⟩ := List.mem_map.1 he
    rfl
  · rw [hremoved]
    exact congrArg (insertAll w.removed) (List.map_id l)

/-- Reading back a dumped whiteboard, over whatever was there before. -/
theorem parseJson_serializeJson {w : CrdtWhiteboard} {addOrder : IterOrder String AddEntry}
    {removeOrder : IterOrder String RemoveEntry}
    (hlib : lib.Reproduces (stateJson lib w addOrder removeOrder)) (v : CrdtWhiteboard) :
    ∃ w', parseJson lib v (serializeJson lib w addOrder removeOrder) = (w', true) ∧
      w'.peerId = w.peerId ∧ w'.lamportTs = w.lamportTs ∧ w'.removed = w.removed ∧
      ∀ uuid, w'.added.lookup uuid = (w.added.lookup uuid).map (reload lib) := by
  have hkeyed := w.iteration_keyed (addOrder w.added)
  obtain ⟨u, hloadAdded, hadded, -, hpeer, hclock⟩ :=
    loadAdded_addJson lib (addOrder w.added).visits hkeyed
      (clearAdded { v with peerId := w.peerId, lamportTs := w.lamportTs })
  obtain ⟨w', hloadRemoved, hremoved, hadded', hpeer', hclock'⟩ :=
    loadRemoved_removeJson lib (removeOrder w.removed).visits (clearRemoved u)
  refine ⟨w', ?_, hpeer'.trans hpeer, hclock'.trans hclock, ?_, ?_⟩
  · have hfield : (stateJson lib w addOrder removeOrder).field "added" =
        some (.arr ((addOrder w.added).visits.map fun p => addJson lib p.2)) := rfl
    rw [parseJson, serializeJson, hlib]
    change parseAdded lib (stateJson lib w addOrder removeOrder) _ = _
    rw [parseAdded, hfield]
    dsimp only [elements]
    rw [hloadAdded]
    exact hloadRemoved
  · -- both maps are cleared first, so nothing of `v` is left
    rw [hremoved]
    exact (removeOrder w.removed).insertAll_visits
  · intro uuid
    rw [hadded', clearRemoved, hadded, lookup_insertAll, List.dlookup_map₂, Iteration.dlookup_eq]
    · exact Option.or_none
    · exact (addOrder w.added).nodupKeys.map₂ _ _

end RoundTrip

/-! ## Whiteboards with finite floats -/

/-- Neither infinite nor a NaN: some exponent bit is not set. -/
def isFinite (bits : FloatBits) : Bool := (bits >>> 23) &&& 0xFF != 0xFF

/-- The numbers of the stroke can be written in JSON. -/
structure FiniteStroke (s : Stroke) : Prop where
  width : isFinite s.width = true
  points : ∀ p ∈ s.points, isFinite p.x = true ∧ isFinite p.y = true

/-- Finite floats pass through `double` unchanged. -/
def StateLib.KeepsFloats (lib : StateLib) : Prop :=
  ∀ bits, isFinite bits = true → viaDouble lib bits = bits

/-- The whiteboards that the constructor and the updates lead to, with finite coordinates and
widths. -/
inductive Reachable : CrdtWhiteboard → Prop where
  | init (peerId : String) : Reachable (.ofPeer peerId)
  | localAdd {w : CrdtWhiteboard} {s : Stroke} (hw : Reachable w) (hs : FiniteStroke s) :
      Reachable (w.localAdd s)
  | localRemove {w : CrdtWhiteboard} (hw : Reachable w) (uuid : String) :
      Reachable (w.localRemove uuid)
  | remoteAdd {w : CrdtWhiteboard} {s : Stroke} (hw : Reachable w) (hs : FiniteStroke s)
      (ts : UInt64) (peerId : String) : Reachable (w.remoteAdd s ts peerId)
  | remoteRemove {w : CrdtWhiteboard} (hw : Reachable w) (uuid : String) (ts : UInt64)
      (peerId : String) : Reachable (w.remoteRemove uuid ts peerId)
  | merge {w other : CrdtWhiteboard} (hw : Reachable w) (hother : Reachable other)
      (addOrder : IterOrder String AddEntry) (removeOrder : IterOrder String RemoveEntry) :
      Reachable (w.merge other addOrder removeOrder)

/-- Every stroke of a reachable whiteboard is finite. -/
theorem Reachable.allFinite {w : CrdtWhiteboard} (h : Reachable w) :
    w.AllEntries (fun e => FiniteStroke e.stroke) (fun _ => True) := by
  induction h with
  | init peerId => exact CrdtWhiteboard.AllEntries.ofPeer peerId
  | localAdd hw hs ih => exact ih.localAdd hs
  | localRemove hw uuid ih => exact ih.localRemove uuid trivial
  | remoteAdd hw hs ts peerId ih => exact ih.remoteAdd hs
  | remoteRemove hw uuid ts peerId ih => exact ih.remoteRemove uuid trivial
  | merge hw hother addOrder removeOrder ih ihother =>
      exact ih.merge ihother addOrder removeOrder

theorem reload_of_finite {lib : StateLib} (hfloats : lib.KeepsFloats) {e : AddEntry}
    (he : FiniteStroke e.stroke) : reload lib e = e := by
  have hpoint : ∀ p ∈ e.stroke.points, reloadPoint lib p = p := by
    intro p hp
    obtain ⟨hx, hy⟩ := he.points p hp
    rw [reloadPoint, hfloats p.x hx, hfloats p.y hy]
  rw [reload, reloadStroke, List.map_congr_left hpoint, List.map_id', hfloats _ he.width]

/-- A whiteboard is what its four fields are. -/
theorem board_ext {w w' : CrdtWhiteboard} (hpeer : w'.peerId = w.peerId)
    (hclock : w'.lamportTs = w.lamportTs) (hadded : w'.added = w.added)
    (hremoved : w'.removed = w.removed) : w' = w := by
  cases w
  cases w'
  simp only at hpeer hclock hadded hremoved
  subst hpeer hclock hadded hremoved
  rfl

/-- Whatever whiteboard `parse_json` is applied to, reading the text of a reachable whiteboard with
finite coordinates and widths succeeds and makes it equal to that whiteboard. -/
theorem parse_restores (lib : StateLib) (hfloats : lib.KeepsFloats) (w : CrdtWhiteboard)
    (hw : Reachable w) (addOrder : IterOrder String AddEntry)
    (removeOrder : IterOrder String RemoveEntry)
    (hlib : lib.Reproduces (stateJson lib w addOrder removeOrder)) (v : CrdtWhiteboard) :
    parseJson lib v (serializeJson lib w addOrder removeOrder) = (w, true) := by
  obtain ⟨w', hparse, hpeer, hclock, hremoved, hadded⟩ := parseJson_serializeJson hlib v
  have hsame : w'.added = w.added := by
    apply Finmap.ext_lookup
    intro uuid
    rw [hadded]
    cases hlookup : w.added.lookup uuid with
    | none => rfl
    | some e => rw [Option.map_some, reload_of_finite hfloats (hw.allFinite.added uuid e hlookup)]
  rw [hparse, board_ext hpeer hclock hsame hremoved]

/-! ## A whiteboard with one stroke and one removal -/

/-- A stroke through one point, at three and four, of width five. -/
def sampleStroke : Stroke :=
  { uuid := "s1", points := [⟨0x40400000, 0x40800000⟩], color := 0xFF112233,
    width := 0x40A00000 }

/-- A whiteboard with one stroke, and the removal of another. -/
def sampleBoard : CrdtWhiteboard :=
  ((CrdtWhiteboard.ofPeer "A").localAdd sampleStroke).localRemove "s2"

/-- The document of that whiteboard. -/
def sampleJson : Json :=
  .obj [("added", .arr [.obj [("color", .uint 0xFF112233), ("peer_id", .str "A"),
      ("points", .arr [.obj [("x", .float 0x4008000000000000), ("y", .float 0x4010000000000000)]]),
      ("ts", .uint 1), ("uuid", .str "s1"), ("width", .float 0x4014000000000000)]]),
    ("lamport_ts", .uint 2), ("peer_id", .str "A"),
    ("removed", .arr [.obj [("peer_id", .str "A"), ("ts", .uint 2), ("uuid", .str "s2")]])]

/-- The text of that document. -/
def sampleText : String :=
  "\x7b\"added\":[\x7b\"color\":4279312947,\"peer_id\":\"A\",\"points\":" ++
    "[\x7b\"x\":3.0,\"y\":4.0\x7d],\"ts\":1,\"uuid\":\"s1\",\"width\":5.0\x7d]," ++
    "\"lamport_ts\":2,\"peer_id\":\"A\"," ++
    "\"removed\":[\x7b\"peer_id\":\"A\",\"ts\":2,\"uuid\":\"s2\"\x7d]\x7d"

/-- The library on this one text. The conversions are those of the normal floats: the exponents of
the two formats differ by 896. -/
def sampleLib : StateLib where
  dump _ := sampleText
  parse s := if s = sampleText then some sampleJson else none
  floatToDouble bits := .ofNat
    (bits.toNat / 2 ^ 31 * 2 ^ 63 + (bits.toNat % 2 ^ 31 * 2 ^ 29 + 896 * 2 ^ 52))
  doubleToFloat bits := .ofNat
    (bits.toNat / 2 ^ 63 * 2 ^ 31 + (bits.toNat % 2 ^ 63 - 896 * 2 ^ 52) / 2 ^ 29)
  intToFloat _ := 0
  uintToFloat _ := 0
  doubleToUInt32 _ := 0
  doubleToUInt64 _ := 0

theorem sampleLib_keepsFloats : sampleLib.KeepsFloats := by
  intro bits _
  have hlt : bits.toNat < 2 ^ 32 := bits.toNat_lt
  rw [← UInt32.toNat_inj]
  simp only [viaDouble, sampleLib, UInt64.toNat_ofNat', UInt32.toNat_ofNat']
  omega

/-- The sample whiteboard is reached by local actions. -/
theorem sampleBoard_reachable : Reachable sampleBoard := by
  have hfinite : FiniteStroke sampleStroke :=
    { width := by decide
      points := by
        intro p hp
        obtain rfl := List.mem_singleton.1 hp
        decide }
  exact ((Reachable.init "A").localAdd hfinite).localRemove "s2"

theorem stateJson_sampleBoard :
    stateJson sampleLib sampleBoard someVisits someVisits = sampleJson := by
  have hadded : sampleBoard.added.entries = {⟨"s1", ⟨sampleStroke, 1, "A"⟩⟩} := rfl
  have hremoved : sampleBoard.removed.entries = {⟨"s2", ⟨2, "A"⟩⟩} := rfl
  simp only [stateJson, someVisits, hadded, hremoved, Multiset.toList_singleton]
  rfl

theorem parse_restores_sampleBoard :
    parseJson sampleLib (.ofPeer "X") (serializeJson sampleLib sampleBoard someVisits
      someVisits) = (sampleBoard, true) := by
  apply parse_restores sampleLib sampleLib_keepsFloats sampleBoard sampleBoard_reachable
  rw [stateJson_sampleBoard]
  simp only [StateLib.Reproduces, sampleLib, if_true]

end CppMeet.Whiteboard.StateJson
