import CppMeet.Signaling.Room

/-!
# The audience of `relay`

Who is passed a message, and what. A message without a receiver goes to every other member of the
room of its sender, once; a message whose receiver is an integer goes to that connection; any other
kind of receiver than a number or a boolean throws, and nobody is told (`relay_audience`). What is
passed on is the message with its member `from` replaced by the sender (`Attributed`).
-/

set_option autoImplicit false

namespace CppMeet.Signaling.Relay

open CppMeet.Lib.HashMap CppMeet.Lib.Run CppMeet.Signaling.Document CppMeet.Signaling.Room
open CppMeet.Signaling.Room.RoomManager

/-! ## What is passed on -/

/-- `out` is the object `msg` with `from` naming the sender. -/
structure Attributed (sender : ConnId) (msg out : Json) : Prop where
  isObj : ∃ members, out = .obj members
  sender_eq : out.field "from" = some (.int sender.toInt64)
  other_eq : ∀ key, key ≠ "from" → out.field key = msg.field key

/-- A message that was forwarded names its sender. -/
theorem attributed_of_setField {sender : ConnId} {msg out : Json}
    (h : msg.setField "from" (.int sender.toInt64) = some out) : Attributed sender msg out where
  isObj := by
    obtain ⟨members, hout, -⟩ := Json.exists_of_setField h
    exact ⟨_, hout⟩
  sender_eq := Json.field_setField h
  other_eq _ hkey := Json.field_setField_of_ne hkey h

/-! ## Receivers -/

/-- The value is an integer, and the integer is the connection id. -/
def Denotes (dest : Json) (connId : ConnId) : Prop :=
  match dest with
  | .int n => n.toInt = connId.toInt
  | .uint n => n.toNat = connId.toInt
  | _ => False

/-- The value is a string, an array or an object. -/
def NoNumber : Json → Prop
  | .str _ | .arr _ | .obj _ => True
  | _ => False

/-- The cast to `int` does not change an integer that is a connection id. -/
theorem getInt_of_denotes (lib : JsonLib) {dest : Json} {connId : ConnId}
    (h : Denotes dest connId) : dest.getInt lib = some connId := by
  cases dest with
  | int n =>
      have hn : n.toInt = connId.toInt := h
      refine congrArg some ?_
      rw [← Int32.ofInt_int64ToInt, hn, Int32.ofInt_toInt]
  | uint n =>
      have hn : (n.toNat : Int) = connId.toInt := h
      have hcast : n.toUInt32.toInt32.toInt = (n.toNat : Int).bmod (2 ^ 32) :=
        BitVec.toInt_setWidth n.toBitVec
      refine congrArg some (Int32.toInt_inj.1 ?_)
      rw [hcast, hn, Int.bmod_eq_of_le connId.le_toInt connId.toInt_lt]
  | null => exact h.elim
  | bool _ => exact h.elim
  | float _ => exact h.elim
  | str _ => exact h.elim
  | arr _ => exact h.elim
  | obj _ => exact h.elim

/-- A destination that is no number is no `int`. -/
theorem getInt_of_noNumber (lib : JsonLib) {dest : Json} (h : NoNumber dest) :
    dest.getInt lib = none := by
  cases dest with
  | str _ => rfl
  | arr _ => rfl
  | obj _ => rfl
  | null => exact h.elim
  | bool _ => exact h.elim
  | int _ => exact h.elim
  | uint _ => exact h.elim
  | float _ => exact h.elim

/-! ## The branches of `relay` -/

/-- The other members of the room of the sender are told once each, and nobody else. -/
def ReachesOthers (m : RoomManager) (sender : ConnId) (sent : List Notification) : Prop :=
  (sent.map Notification.connId).Nodup ∧
    ∀ peer, peer ∈ sent.map Notification.connId ↔
      peer ≠ sender ∧ ∃ roomId, sender ∈ m.members roomId ∧ peer ∈ m.members roomId

variable {m : RoomManager} {order : SetOrder ConnId} {lib : JsonLib} {sender : ConnId}
  {msgJson : String}

/-- Everybody in the list is notified, in its order. -/
theorem map_connId_notifyAll (hnotify : m.notify = true) (peers : List ConnId) (msg : Json) :
    (m.notifyAll peers msg).map Notification.connId = peers := by
  rw [notifyAll, if_pos hnotify, List.map_map]
  exact List.map_id peers

/-- A broadcast reaches everybody else in the room, once. -/
theorem broadcast_reaches (h : m.Consistent) (hnotify : m.notify = true)
    (members : List (String × Json)) :
    ReachesOthers m sender (m.broadcast order sender (.obj members)).2 := by
  cases hroom : m.connRoom.lookup sender with
  | none =>
      -- the message of a sender without a room goes to nobody
      have hsent : (m.broadcast order sender (.obj members)).2 = [] := by rw [broadcast, hroom]
      rw [hsent]
      refine ⟨List.nodup_nil, fun peer => iff_of_false List.not_mem_nil ?_⟩
      rintro ⟨-, roomId, hmem, -⟩
      rw [← h, hroom] at hmem
      cases hmem
  | some roomId =>
      have hsent : (m.broadcast order sender (.obj members)).2.map Notification.connId =
          m.others order roomId sender := by
        rw [broadcast, hroom]
        exact map_connId_notifyAll hnotify _ _
      have hmem : sender ∈ m.members roomId := (h sender roomId).1 hroom
      refine ⟨hsent ▸ others_nodup roomId sender, fun peer => ?_⟩
      rw [hsent, mem_others]
      constructor
      · rintro ⟨hpeer, hne⟩
        exact ⟨hne, roomId, hmem, hpeer⟩
      · rintro ⟨hne, roomId', hmem', hpeer⟩
        exact ⟨h.eq_of_mem hmem hmem' ▸ hpeer, hne⟩

/-- A receiver that is an integer is told, and nobody else. -/
theorem relay_denotes (hnotify : m.notify = true) {members : List (String × Json)} {dest : Json}
    {connId : ConnId} (hparse : lib.parse msgJson = some (.obj members))
    (hdest : receiver (.obj members) = some dest) (hconn : Denotes dest connId) :
    (relay lib m order sender msgJson).2.map Notification.connId = [connId] := by
  simp only [relay, hparse, hdest, getInt_of_denotes lib hconn, Json.setField]
  exact map_connId_notifyAll hnotify _ _

/-- A receiver that is neither a number nor a boolean throws. -/
theorem relay_noNumber {msg dest : Json} (hparse : lib.parse msgJson = some msg)
    (hdest : receiver msg = some dest) (hconn : NoNumber dest) :
    (relay lib m order sender msgJson).2 = [] := by
  simp only [relay, hparse, hdest, getInt_of_noNumber lib hconn]

/-- In both branches the message is passed on with `from` set to the sender. -/
theorem relay_attributed {n : Notification} (hn : n ∈ (relay lib m order sender msgJson).2) :
    ∃ msg, lib.parse msgJson = some msg ∧ Attributed sender msg n.msg := by
  obtain ⟨msg, hparse, ⟨-, hbroadcast⟩ | ⟨dest, -, -, -, hout⟩⟩ := mem_relay.1 hn
  · exact ⟨msg, hparse, attributed_of_setField (mem_broadcast.1 hbroadcast).2.1⟩
  · exact ⟨msg, hparse, attributed_of_setField hout⟩

theorem relay_silent (hnotify : m.notify = false) : (relay lib m order sender msgJson).2 = [] := by
  refine List.eq_nil_iff_forall_not_mem.2 fun n hn => Bool.false_ne_true ?_
  obtain ⟨msg, -, ⟨-, hbroadcast⟩ | ⟨dest, -, -, htrue, -⟩⟩ := mem_relay.1 hn
  · exact hnotify.symm.trans (mem_broadcast.1 hbroadcast).1
  · exact hnotify.symm.trans htrue

/-- In every state that `join` and `leave` reach: a text that is not JSON changes nothing and is
passed to nobody; an object goes to the other members of the room of its sender, once each, or to
the connection its receiver is, or, when the receiver is a string, an array or an object, to nobody;
and what is passed on is the object of the text with `from` set to the sender. Without a callback
nobody is told. -/
theorem relay_audience (lib : JsonLib) (calls : List Call) (order : SetOrder ConnId)
    (sender : ConnId) (msgJson : String) :
    let m := run (call lib) { notify := true } calls
    let sent := (relay lib m order sender msgJson).2
    (lib.parse msgJson = none → relay lib m order sender msgJson = (m, [])) ∧
    (∀ members, lib.parse msgJson = some (.obj members) →
      match receiver (.obj members) with
      | none => ReachesOthers m sender sent
      | some dest =>
          (∀ connId, Denotes dest connId → sent.map Notification.connId = [connId]) ∧
          (NoNumber dest → sent = [])) ∧
    (∀ n ∈ sent, ∃ msg, lib.parse msgJson = some msg ∧ Attributed sender msg n.msg) ∧
    (relay lib (run (call lib) { notify := false } calls) order sender msgJson).2 = [] := by
  intro m sent
  have hcons : m.Consistent := consistent_run lib true calls
  have hnotify : m.notify = true := run_notify lib { notify := true } calls
  refine ⟨fun hparse => ?_, fun members hparse => ?_, fun n hn => relay_attributed hn, ?_⟩
  · rw [relay, hparse]
  · cases hdest : receiver (.obj members) with
    | none =>
        have hsent : sent = (m.broadcast order sender (.obj members)).2 := by
          simp only [sent, relay, hparse, hdest]
        rw [hsent]
        exact broadcast_reaches hcons hnotify members
    | some dest =>
        exact ⟨fun connId hconn => relay_denotes hnotify hparse hdest hconn,
          fun hconn => relay_noNumber hparse hdest hconn⟩
  · exact relay_silent (run_notify lib { notify := false } calls)

end CppMeet.Signaling.Relay
