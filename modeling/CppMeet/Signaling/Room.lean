import CppMeet.Lib.HashMap
import CppMeet.Lib.Run
import CppMeet.Signaling.Document

/-!
# The room manager

`RoomManager` keeps the members of every room in `rooms` and the room of every connection in
`connRoom`. `join`, `leave` and `relay` return the state after the call and the messages passed to
`notify_`, in order. The loops over a member set take its iteration order as an argument.

A room name is a byte string. `join` and `leave` put it into the messages they dump, and `dump`
throws for a name that is not UTF-8, when the indexes have been edited already.

`Consistent` says that the two indexes agree. It holds in every state that `join` and `leave` reach
(`consistent_run`), and in such a state each call changes the member sets by one `insert` or `erase`
(`join_members`, `leave_members`).
-/

set_option autoImplicit false

namespace CppMeet.Signaling.Room

open CppMeet.Lib.HashMap CppMeet.Lib.Run CppMeet.Signaling.Document

/-- A connection id, an `int`. -/
abbrev ConnId := Int32

/-- A room name, a `std::string`. -/
abbrev RoomId := List UInt8

/-- One call of `notify_`, with the document whose dump is passed. -/
structure Notification where
  connId : ConnId
  msg : Json

/-- A room manager. `notify` says whether `set_notify` has installed a callback. -/
structure RoomManager where
  rooms : UnorderedMap RoomId (Finset ConnId) := ∅
  connRoom : UnorderedMap ConnId RoomId := ∅
  notify : Bool := false

/-- What the members of a room are told of a new one. `room` is the text of the room name. -/
def peerJoined (connId : ConnId) (room : String) : Json :=
  .obj [("peer_id", .int connId.toInt64), ("room_id", .str room), ("type", .str "peer_joined")]

/-- What the members of a room are told of one that has left. -/
def peerLeft (connId : ConnId) (room : String) : Json :=
  .obj [("peer_id", .int connId.toInt64), ("room_id", .str room), ("type", .str "peer_left")]

/-- The reply to a `join`. -/
def roomInfo (room : String) (peers : List ConnId) : Json :=
  .obj [("peers", .arr (peers.map fun p => .int p.toInt64)), ("room_id", .str room),
    ("type", .str "room_info")]

/-- What a call of `join` or `leave` leaves behind: the state, the messages passed to `notify_` and
the value returned, `none` when `dump` throws. -/
structure Outcome (α : Type) where
  state : RoomManager
  sent : List Notification
  returned : Option α

namespace RoomManager

/-- `set_notify`. -/
def setNotify (m : RoomManager) : RoomManager := { m with notify := true }

/-- `rooms_[room_id]`, where a room that is not there is empty. -/
def members (m : RoomManager) (roomId : RoomId) : Finset ConnId :=
  (m.rooms.lookup roomId).getD ∅

/-- The connection is taken out of the two indexes, and a room left without members is removed. -/
def dropMember (m : RoomManager) (roomId : RoomId) (connId : ConnId) : RoomManager :=
  let rest := (m.members roomId).erase connId
  { m with
    rooms := if rest = ∅ then m.rooms.erase roomId else m.rooms.insert roomId rest
    connRoom := m.connRoom.erase connId }

/-- The start of `join`: a connection that is in some room leaves it, and nobody is notified. -/
def moveOut (m : RoomManager) (connId : ConnId) : RoomManager :=
  match m.connRoom.lookup connId with
  | none => m
  | some oldRoom => m.dropMember oldRoom connId

/-- `rooms_[room_id].insert(conn_id)` and `conn_room_[conn_id] = room_id`. -/
def addMember (m : RoomManager) (roomId : RoomId) (connId : ConnId) : RoomManager :=
  { m with
    rooms := m.rooms.insert roomId (insert connId (m.members roomId))
    connRoom := m.connRoom.insert connId roomId }

/-- The members of a room other than `connId`, as a loop over the room visits them. -/
def others (m : RoomManager) (order : SetOrder ConnId) (roomId : RoomId) (connId : ConnId) :
    List ConnId :=
  (order (m.members roomId)).visits.filter (· ≠ connId)

/-- The calls `notify_(peer, msg)` for every peer of the list. -/
def notifyAll (m : RoomManager) (peers : List ConnId) (msg : Json) : List Notification :=
  if m.notify then peers.map fun peer => ⟨peer, msg⟩ else []

/-- `join`: out of the old room, into the new one; the other members are told and returned. -/
def join (lib : JsonLib) (m : RoomManager) (order : SetOrder ConnId) (connId : ConnId)
    (roomId : RoomId) : Outcome Json :=
  -- the old room is left without a `peer_left`
  let state := (m.moveOut connId).addMember roomId connId
  let peers := state.others order roomId connId
  match lib.text roomId with
  | some room =>
      { state := state
        sent := state.notifyAll peers (peerJoined connId room)
        returned := some (roomInfo room peers) }
  | none =>
      -- with a callback the notification cannot be dumped, and without one the reply cannot
      { state := state, sent := [], returned := none }

/-- `leave`: the remaining members are told, and the room is removed if there are none. -/
def leave (lib : JsonLib) (m : RoomManager) (order : SetOrder ConnId) (connId : ConnId) :
    Outcome Unit :=
  match m.connRoom.lookup connId with
  | none => { state := m, sent := [], returned := some () }
  | some roomId =>
      let rest := (m.members roomId).erase connId
      match m.notify, lib.text roomId with
      | true, none =>
          -- the exception comes before an empty room would be removed
          { state :=
              { m with
                rooms := m.rooms.insert roomId rest
                connRoom := m.connRoom.erase connId }
            sent := []
            returned := none }
      | true, some room =>
          { state := m.dropMember roomId connId
            sent := m.notifyAll (order rest).visits (peerLeft connId room)
            returned := some () }
      | false, _ => { state := m.dropMember roomId connId, sent := [], returned := some () }

/-- The member `to` of a message that names a receiver: present and not `null`. -/
def receiver (msg : Json) : Option Json := (msg.field "to").filter fun dest => !dest.isNull

/-- The broadcast branch of `relay`. `rooms_[room_id]` makes the entry if there is none. -/
def broadcast (m : RoomManager) (order : SetOrder ConnId) (sender : ConnId) (msg : Json) :
    RoomManager × List Notification :=
  match m.connRoom.lookup sender with
  | none => (m, [])
  | some roomId =>
      match msg.setField "from" (.int sender.toInt64) with
      -- only an object or a null takes the member `from`, and the exception is swallowed
      | none => (m, [])
      | some out =>
          ({ m with rooms := m.rooms.insert roomId (m.members roomId) },
            m.notifyAll (m.others order roomId sender) out)

/-- An exception of the JSON library ends the call and is swallowed. The strings of a document that
was parsed are UTF-8, so the `dump` of this one does not throw. -/
def relay (lib : JsonLib) (m : RoomManager) (order : SetOrder ConnId) (sender : ConnId)
    (msgJson : String) : RoomManager × List Notification :=
  match lib.parse msgJson with
  | none => (m, [])
  | some msg =>
      match receiver msg with
      | none => m.broadcast order sender msg
      | some dest =>
          -- point to point, without a look at the rooms
          match dest.getInt lib, msg.setField "from" (.int sender.toInt64) with
          | some connId, some out => (m, m.notifyAll [connId] out)
          | _, _ => (m, [])

end RoomManager

/-- A call that changes the membership, with the iteration order of its loops. -/
inductive Call where
  | join (order : SetOrder ConnId) (connId : ConnId) (roomId : RoomId)
  | leave (order : SetOrder ConnId) (connId : ConnId)

/-- The state after a call. -/
def call (lib : JsonLib) (m : RoomManager) : Call → RoomManager
  | .join order connId roomId => (m.join lib order connId roomId).state
  | .leave order connId => (m.leave lib order connId).state

/-! ## The two indexes -/

namespace RoomManager

variable (lib : JsonLib) (m : RoomManager) (order : SetOrder ConnId)

/-- The room loses the member, or is removed with its last one. -/
theorem dropMember_rooms (roomId : RoomId) (connId : ConnId) :
    (m.dropMember roomId connId).rooms =
      if (m.members roomId).erase connId = ∅ then m.rooms.erase roomId
      else m.rooms.insert roomId ((m.members roomId).erase connId) := rfl

theorem members_dropMember (roomId roomId' : RoomId) (connId : ConnId) :
    (m.dropMember roomId connId).members roomId' =
      if roomId' = roomId then (m.members roomId).erase connId else m.members roomId' := by
  rw [members, dropMember_rooms]
  by_cases hempty : (m.members roomId).erase connId = ∅
  · rw [if_pos hempty, lookup_erase_ite]
    by_cases hroom : roomId' = roomId
    · rw [if_pos hroom, if_pos hroom, hempty]
      rfl
    · rw [if_neg hroom, if_neg hroom, members]
  · rw [if_neg hempty, lookup_insert_ite]
    by_cases hroom : roomId' = roomId
    · rw [if_pos hroom, if_pos hroom, Option.getD_some]
    · rw [if_neg hroom, if_neg hroom, members]

theorem members_addMember (roomId roomId' : RoomId) (connId : ConnId) :
    (m.addMember roomId connId).members roomId' =
      if roomId' = roomId then insert connId (m.members roomId) else m.members roomId' := by
  simp only [addMember, members, lookup_insert_ite]
  by_cases hroom : roomId' = roomId
  · rw [if_pos hroom, if_pos hroom, Option.getD_some]
  · rw [if_neg hroom, if_neg hroom]

/-- The two indexes agree: `connRoom` has the room of a connection exactly when the connection is a
member of that room. -/
def Consistent : Prop :=
  ∀ connId roomId, m.connRoom.lookup connId = some roomId ↔ connId ∈ m.members roomId

variable {m order}

theorem consistent_init (notify : Bool) : Consistent { notify } := by
  intro connId roomId
  simp [members]

theorem Consistent.eq_of_mem (h : m.Consistent) {connId : ConnId} {roomId roomId' : RoomId}
    (hmem : connId ∈ m.members roomId) (hmem' : connId ∈ m.members roomId') : roomId' = roomId := by
  rw [← h] at hmem hmem'
  exact Option.some.inj (hmem'.symm.trans hmem)

/-- Moving a connection out takes it out of every member set. -/
theorem moveOut_members (h : m.Consistent) (connId : ConnId) (roomId : RoomId) :
    (m.moveOut connId).members roomId = (m.members roomId).erase connId := by
  unfold moveOut
  cases hold : m.connRoom.lookup connId with
  | none =>
      refine (Finset.erase_eq_of_notMem fun hmem => ?_).symm
      rw [← h, hold] at hmem
      cases hmem
  | some oldRoom =>
      change (m.dropMember oldRoom connId).members roomId = _
      rw [members_dropMember]
      by_cases hroom : roomId = oldRoom
      · rw [if_pos hroom, hroom]
      · rw [if_neg hroom, Finset.erase_eq_of_notMem]
        exact fun hmem => hroom (h.eq_of_mem ((h connId oldRoom).1 hold) hmem)

/-- Afterwards the connection is in no room. -/
theorem moveOut_connRoom (connId connId' : ConnId) :
    (m.moveOut connId).connRoom.lookup connId' =
      if connId' = connId then none else m.connRoom.lookup connId' := by
  unfold moveOut
  cases hold : m.connRoom.lookup connId with
  | none =>
      by_cases hconn : connId' = connId
      · rw [if_pos hconn, hconn]
        exact hold
      · rw [if_neg hconn]
  | some oldRoom => exact lookup_erase_ite m.connRoom connId connId'

theorem moveOut_notify (connId : ConnId) : (m.moveOut connId).notify = m.notify := by
  unfold moveOut
  split <;> rfl

theorem Consistent.moveOut (h : m.Consistent) (connId : ConnId) :
    (m.moveOut connId).Consistent := by
  intro connId' roomId
  rw [moveOut_connRoom, moveOut_members h, Finset.mem_erase, ← h]
  by_cases hconn : connId' = connId
  · simp [hconn]
  · simp [hconn]

variable (order)

/-- `join` edits the indexes before it dumps anything. -/
theorem join_state (connId : ConnId) (roomId : RoomId) :
    (m.join lib order connId roomId).state = (m.moveOut connId).addMember roomId connId := by
  unfold join
  cases lib.text roomId with
  | none => rfl
  | some room => rfl

/-- With a callback, and a room name that cannot be dumped, `leave` ends with an exception. -/
theorem leave_throws {connId : ConnId} {roomId : RoomId}
    (hroom : m.connRoom.lookup connId = some roomId) (hnotify : m.notify = true)
    (htext : lib.text roomId = none) :
    m.leave lib order connId =
      { state :=
          { m with
            rooms := m.rooms.insert roomId ((m.members roomId).erase connId)
            connRoom := m.connRoom.erase connId }
        sent := []
        returned := none } := by
  simp only [leave, hroom, hnotify, htext]

/-- Otherwise it changes the state as the start of `join` does. -/
theorem leave_cases (connId : ConnId) :
    (m.leave lib order connId).state = m.moveOut connId ∨
      ∃ roomId, m.connRoom.lookup connId = some roomId ∧ m.notify = true ∧
        lib.text roomId = none := by
  unfold leave moveOut
  cases hroom : m.connRoom.lookup connId with
  | none => exact Or.inl rfl
  | some roomId =>
      cases hnotify : m.notify with
      | false => exact Or.inl rfl
      | true =>
          cases htext : lib.text roomId with
          | none => exact Or.inr ⟨roomId, rfl, rfl, htext⟩
          | some room => exact Or.inl (by simp [htext])

/-- Leaving takes the connection out of every room. -/
theorem leave_members (h : m.Consistent) (connId : ConnId) (roomId : RoomId) :
    (m.leave lib order connId).state.members roomId = (m.members roomId).erase connId := by
  rcases leave_cases lib order connId with hstate | ⟨room, hroom, hnotify, htext⟩
  · rw [hstate, moveOut_members h]
  · rw [leave_throws lib order hroom hnotify htext, members, lookup_insert_ite]
    by_cases hsame : roomId = room
    · rw [if_pos hsame, hsame, Option.getD_some]
    · rw [if_neg hsame, Finset.erase_eq_of_notMem, members]
      exact fun hmem => hsame (h.eq_of_mem ((h connId room).1 hroom) hmem)

/-- Afterwards the connection is in no room, and nobody else moves. -/
theorem leave_connRoom (connId connId' : ConnId) :
    (m.leave lib order connId).state.connRoom.lookup connId' =
      if connId' = connId then none else m.connRoom.lookup connId' := by
  rcases leave_cases lib order connId with hstate | ⟨room, hroom, hnotify, htext⟩
  · rw [hstate, moveOut_connRoom]
  · rw [leave_throws lib order hroom hnotify htext]
    exact lookup_erase_ite m.connRoom connId connId'

theorem leave_notify (connId : ConnId) :
    (m.leave lib order connId).state.notify = m.notify := by
  rcases leave_cases lib order connId with hstate | ⟨room, hroom, hnotify, htext⟩
  · rw [hstate, moveOut_notify]
  · rw [leave_throws lib order hroom hnotify htext]

/-- After a join the connection is in this room and no other. -/
theorem join_members (h : m.Consistent) (connId : ConnId) (roomId roomId' : RoomId) :
    (m.join lib order connId roomId).state.members roomId' =
      if roomId' = roomId then insert connId (m.members roomId')
      else (m.members roomId').erase connId := by
  rw [join_state, members_addMember, moveOut_members h, moveOut_members h]
  by_cases hroom : roomId' = roomId
  · rw [if_pos hroom, if_pos hroom, hroom]
    ext peer
    by_cases hpeer : peer = connId
    · simp [hpeer]
    · simp [hpeer]
  · rw [if_neg hroom, if_neg hroom]

theorem join_notify (connId : ConnId) (roomId : RoomId) :
    (m.join lib order connId roomId).state.notify = m.notify := by
  rw [join_state]
  exact moveOut_notify connId

theorem Consistent.leave (h : m.Consistent) (connId : ConnId) :
    (m.leave lib order connId).state.Consistent := by
  intro connId' roomId
  rw [leave_connRoom, leave_members lib order h, Finset.mem_erase, ← h]
  by_cases hconn : connId' = connId
  · simp [hconn]
  · simp [hconn]

theorem Consistent.join (h : m.Consistent) (connId : ConnId) (roomId : RoomId) :
    (m.join lib order connId roomId).state.Consistent := by
  intro connId' roomId'
  rw [join_members lib order h, join_state]
  change ((m.moveOut connId).connRoom.insert connId roomId).lookup connId' = _ ↔ _
  rw [lookup_insert_ite, moveOut_connRoom]
  by_cases hconn : connId' = connId
  · by_cases hroom : roomId' = roomId
    · simp [hconn, hroom]
    · simp [hconn, hroom, Ne.symm hroom]
  · by_cases hroom : roomId' = roomId
    · simp [hconn, hroom, h connId' roomId]
    · simp [hconn, hroom, h connId' roomId']

end RoomManager

open RoomManager

theorem consistent_call (lib : JsonLib) {m : RoomManager} (h : m.Consistent) (c : Call) :
    (call lib m c).Consistent := by
  cases c with
  | join order connId roomId => exact h.join lib order connId roomId
  | leave order connId => exact h.leave lib order connId

/-- The indexes agree in every state that `join` and `leave` reach. -/
theorem consistent_run (lib : JsonLib) (notify : Bool) (calls : List Call) :
    (run (call lib) { notify } calls).Consistent := by
  refine inv_run (P := fun _ _ => True) (I := Consistent) ?_ (consistent_init notify)
    (along_of_forall (fun _ _ => trivial) _ _)
  exact fun _ c h _ => consistent_call lib h c

/-- No call changes the callback. -/
theorem call_notify (lib : JsonLib) (m : RoomManager) (c : Call) :
    (call lib m c).notify = m.notify := by
  cases c with
  | join order connId roomId => exact join_notify lib order connId roomId
  | leave order connId => exact leave_notify lib order connId

theorem run_notify (lib : JsonLib) (m : RoomManager) (calls : List Call) :
    (run (call lib) m calls).notify = m.notify := by
  induction calls generalizing m with
  | nil => rfl
  | cons c calls ih => rw [run_cons, ih, call_notify]

/-- The members after two joins of different connections. -/
theorem members_twoJoins (lib : JsonLib) (order : SetOrder ConnId) {connId connId' : ConnId}
    (hne : connId ≠ connId') (roomId roomId' room : RoomId) :
    (run (call lib) { notify := true }
        [.join order connId roomId, .join order connId' roomId']).members room =
      (if room = roomId then {connId} else ∅) ∪ (if room = roomId' then {connId'} else ∅) := by
  have hfirst (r : RoomId) :
      (RoomManager.join lib { notify := true } order connId roomId).state.members r =
        if r = roomId then {connId} else ∅ := by
    rw [join_members lib order (consistent_init true)]
    simp [members]
  have hcons := (consistent_init true).join lib order connId roomId
  change (RoomManager.join lib (RoomManager.join lib { notify := true } order connId roomId).state
    order connId' roomId').state.members room = _
  rw [join_members lib order hcons, hfirst]
  by_cases hroom : room = roomId
  · by_cases hroom' : room = roomId'
    · simp [← hroom, ← hroom', Finset.pair_comm]
    · simp [← hroom, hroom', hne.symm]
  · by_cases hroom' : room = roomId'
    · simp [hroom, ← hroom']
    · simp [hroom, hroom']

/-- Two connections that join one room are its members. -/
theorem mem_twoJoins (lib : JsonLib) (order : SetOrder ConnId) {connId connId' : ConnId}
    (hne : connId ≠ connId') (roomId : RoomId) :
    connId ∈ (run (call lib) { notify := true }
      [.join order connId roomId, .join order connId' roomId]).members roomId ∧
    connId' ∈ (run (call lib) { notify := true }
      [.join order connId roomId, .join order connId' roomId]).members roomId := by
  rw [members_twoJoins lib order hne]
  simp

/-! ## The audience of a call -/

namespace RoomManager

variable {lib : JsonLib} {m : RoomManager} {order : SetOrder ConnId}

theorem mem_others {roomId : RoomId} {connId connId' : ConnId} :
    connId' ∈ m.others order roomId connId ↔ connId' ∈ m.members roomId ∧ connId' ≠ connId := by
  rw [others, List.mem_filter, (order (m.members roomId)).mem_iff, decide_eq_true_eq]

theorem others_nodup (roomId : RoomId) (connId : ConnId) :
    (m.others order roomId connId).Nodup :=
  (order (m.members roomId)).nodup.filter _

theorem mem_notifyAll {peers : List ConnId} {msg : Json} {n : Notification} :
    n ∈ m.notifyAll peers msg ↔ m.notify = true ∧ n.connId ∈ peers ∧ n.msg = msg := by
  rw [notifyAll]
  split_ifs with hnotify
  · constructor
    · intro hn
      obtain ⟨peer, hpeer, rfl⟩ := List.mem_map.1 hn
      exact ⟨hnotify, hpeer, rfl⟩
    · rintro ⟨-, hpeer, rfl⟩
      exact List.mem_map.2 ⟨n.connId, hpeer, rfl⟩
  · simp [hnotify]

/-- `join` tells the members of the new room, if its name can be dumped. -/
theorem join_sent (connId : ConnId) (roomId : RoomId) :
    (m.join lib order connId roomId).sent =
      match lib.text roomId with
      | some room =>
          (m.join lib order connId roomId).state.notifyAll
            ((m.join lib order connId roomId).state.others order roomId connId)
            (peerJoined connId room)
      | none => [] := by
  rw [join]
  cases lib.text roomId with
  | none => rfl
  | some room => rfl

/-- And it returns the other members. -/
theorem join_returned (connId : ConnId) (roomId : RoomId) :
    (m.join lib order connId roomId).returned = (lib.text roomId).map fun room =>
      roomInfo room ((m.join lib order connId roomId).state.others order roomId connId) := by
  rw [join]
  cases lib.text roomId with
  | none => rfl
  | some room => rfl

/-- The others in the room are those who were in it before. -/
theorem mem_others_join (h : m.Consistent) {connId peer : ConnId} {roomId : RoomId} :
    peer ∈ (m.join lib order connId roomId).state.others order roomId connId ↔
      peer ∈ m.members roomId ∧ peer ≠ connId := by
  rw [mem_others, join_members lib order h, if_pos rfl, Finset.mem_insert]
  tauto

/-- `leave` tells the members that stay, if the name of their room can be dumped. -/
theorem leave_sent (h : m.Consistent) {connId : ConnId} {roomId : RoomId}
    (hmem : connId ∈ m.members roomId) :
    (m.leave lib order connId).sent =
      match lib.text roomId with
      | some room =>
          m.notifyAll (order ((m.members roomId).erase connId)).visits (peerLeft connId room)
      | none => [] := by
  rw [leave, (h connId roomId).2 hmem]
  cases hnotify : m.notify with
  | true =>
      cases htext : lib.text roomId with
      | none => simp [htext]
      | some room => simp [htext]
  | false =>
      cases lib.text roomId with
      | none => rfl
      | some room => simp [notifyAll, hnotify]

/-- A broadcast goes to the other members of the room of the sender. -/
theorem mem_broadcast {sender : ConnId} {msg : Json} {n : Notification} :
    n ∈ (m.broadcast order sender msg).2 ↔
      m.notify = true ∧ msg.setField "from" (.int sender.toInt64) = some n.msg ∧
        ∃ roomId, m.connRoom.lookup sender = some roomId ∧
          n.connId ∈ m.members roomId ∧ n.connId ≠ sender := by
  unfold broadcast
  cases hroom : m.connRoom.lookup sender with
  | none => simp
  | some roomId =>
      cases hout : msg.setField "from" (.int sender.toInt64) with
      | none => simp
      | some out =>
          simp only [mem_notifyAll, mem_others, Option.some.injEq, exists_eq_left',
            eq_comm (a := n.msg)]
          tauto

/-- `relay` broadcasts a message that names no receiver and passes the others to the connection
they name. -/
theorem mem_relay {sender : ConnId} {msgJson : String} {n : Notification} :
    n ∈ (relay lib m order sender msgJson).2 ↔
      ∃ msg, lib.parse msgJson = some msg ∧
        (receiver msg = none ∧ n ∈ (m.broadcast order sender msg).2 ∨
          ∃ dest, receiver msg = some dest ∧ dest.getInt lib = some n.connId ∧
            m.notify = true ∧ msg.setField "from" (.int sender.toInt64) = some n.msg) := by
  unfold relay
  cases hparse : lib.parse msgJson with
  | none => simp
  | some msg =>
      simp only [Option.some.injEq, exists_eq_left']
      cases hdest : receiver msg with
      | none => simp
      | some dest =>
          simp only [reduceCtorEq, false_and, false_or, Option.some.injEq, exists_eq_left']
          cases hconn : dest.getInt lib with
          | none => simp
          | some connId =>
              cases hout : msg.setField "from" (.int sender.toInt64) with
              | none => simp
              | some out =>
                  simp only [mem_notifyAll, List.mem_singleton, Option.some.injEq]
                  tauto

end RoomManager

end CppMeet.Signaling.Room
