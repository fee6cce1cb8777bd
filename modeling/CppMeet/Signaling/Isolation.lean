import CppMeet.Signaling.Room

/-!
# What `relay` reaches

A message that names no receiver stays in the room of its sender: every connection it is passed to
is another member of that room and of no other. A message that names a receiver is passed to that
connection alone, and the member sets are not consulted, so it can leave the room
(`relay_leaves_room`).
-/

set_option autoImplicit false

namespace CppMeet.Signaling.Isolation

open CppMeet.Lib.HashMap CppMeet.Lib.Run CppMeet.Signaling.Document CppMeet.Signaling.Room
open CppMeet.Signaling.Room.RoomManager

/-- The receiver that a message text names, if it is JSON and names one. -/
def addressee (lib : JsonLib) (msgJson : String) : Option Json :=
  (lib.parse msgJson).bind receiver

/-- Two connections are in one room, and the second is in no other room. -/
def SameRoom (m : RoomManager) (connId connId' : ConnId) : Prop :=
  ∃ roomId, connId ∈ m.members roomId ∧ connId' ∈ m.members roomId ∧
    ∀ roomId', connId' ∈ m.members roomId' → roomId' = roomId

/-- A broadcast reaches members of the sender's room only, and not the sender. -/
theorem sameRoom_of_mem_broadcast {m : RoomManager} (h : m.Consistent) {order : SetOrder ConnId}
    {sender : ConnId} {msg : Json} {n : Notification}
    (hn : n ∈ (m.broadcast order sender msg).2) :
    n.connId ≠ sender ∧ SameRoom m sender n.connId := by
  obtain ⟨-, -, roomId, hroom, hmem, hne⟩ := mem_broadcast.1 hn
  refine ⟨hne, roomId, (h sender roomId).1 hroom, hmem, fun roomId' hmem' => ?_⟩
  exact h.eq_of_mem hmem hmem'

/-- In every state that `join` and `leave` reach, a message that names no receiver is passed to
other members of the room of its sender only, and a message that names one to no other connection
than the one it names. -/
theorem relay_confined (lib : JsonLib) (notify : Bool) (calls : List Call)
    (order : SetOrder ConnId) (sender : ConnId) (msgJson : String) (n : Notification)
    (hn : n ∈ (relay lib (run (call lib) { notify } calls) order sender msgJson).2) :
    match addressee lib msgJson with
    | none => n.connId ≠ sender ∧ SameRoom (run (call lib) { notify } calls) sender n.connId
    | some dest => dest.getInt lib = some n.connId := by
  obtain ⟨msg, hparse, hcase⟩ := mem_relay.1 hn
  have haddressee : addressee lib msgJson = receiver msg := by rw [addressee, hparse]; rfl
  rw [haddressee]
  rcases hcase with ⟨hnone, hbroadcast⟩ | ⟨dest, hdest, hconn, -, -⟩
  · rw [hnone]
    exact sameRoom_of_mem_broadcast (consistent_run lib notify calls) hbroadcast
  · rw [hdest]
    exact hconn

/-! ## Two rooms -/

/-- Connection 1 joins room `A` and connection 2 room `B`. -/
noncomputable def twoRooms : List Call := [.join someOrder 1 [0x41], .join someOrder 2 [0x42]]

/-- Both connections join room `A`. -/
noncomputable def oneRoom : List Call := [.join someOrder 1 [0x41], .join someOrder 2 [0x41]]

/-- A parser that knows two texts, an empty object and one that names connection 2. -/
def twoTexts : JsonLib where
  parse text :=
    if text = "\x7b\x7d" then some (.obj [])
    else if text = "\x7b\"to\":2\x7d" then some (.obj [("to", .uint 2)])
    else none
  doubleToInt _ := 0
  text := asciiLib.text

/-- A member of room `A` reaches a member of room `B` by naming it. -/
theorem relay_leaves_room :
    ¬ ∀ n ∈ (relay twoTexts (run (call twoTexts) { notify := true } twoRooms) someOrder 1
        "\x7b\"to\":2\x7d").2,
      ∃ roomId, 1 ∈ (run (call twoTexts) { notify := true } twoRooms).members roomId ∧
        n.connId ∈ (run (call twoTexts) { notify := true } twoRooms).members roomId := by
  intro h
  have hsent : ⟨2, .obj [("from", .int 1), ("to", .uint 2)]⟩ ∈
      (relay twoTexts (run (call twoTexts) { notify := true } twoRooms) someOrder 1
        "\x7b\"to\":2\x7d").2 := by
    refine mem_relay.2 ⟨.obj [("to", .uint 2)], by simp [twoTexts], Or.inr ⟨.uint 2, ?_⟩⟩
    exact ⟨rfl, rfl, run_notify _ _ _, rfl⟩
  obtain ⟨roomId, h1, h2⟩ := h _ hsent
  rw [twoRooms, members_twoJoins twoTexts someOrder (by decide)] at h1 h2
  by_cases hroom : roomId = [0x41]
  · simp [hroom] at h2
  · rw [if_neg hroom, Finset.empty_union] at h1
    split_ifs at h1 with hB
    · exact absurd h1 (by decide)
    · exact absurd h1 (by decide)

theorem relay_confined_oneRoom :
    (2 : ConnId) ≠ 1 ∧ SameRoom (run (call twoTexts) { notify := true } oneRoom) 1 2 := by
  have hsent : ⟨2, .obj [("from", .int 1)]⟩ ∈
      (relay twoTexts (run (call twoTexts) { notify := true } oneRoom) someOrder 1
        "\x7b\x7d").2 := by
    refine mem_relay.2 ⟨.obj [], by simp [twoTexts], Or.inl ⟨rfl, mem_broadcast.2 ?_⟩⟩
    have hne : (1 : ConnId) ≠ 2 := by decide
    obtain ⟨hsender, hmem⟩ := mem_twoJoins twoTexts someOrder hne [0x41]
    refine ⟨run_notify _ _ _, rfl, [0x41], ?_, hmem, hne.symm⟩
    exact (consistent_run twoTexts true oneRoom 1 [0x41]).2 hsender
  exact relay_confined twoTexts true oneRoom someOrder 1 "\x7b\x7d" _ hsent

end CppMeet.Signaling.Isolation
