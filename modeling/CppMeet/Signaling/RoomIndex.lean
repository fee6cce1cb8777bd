import CppMeet.Signaling.Room

/-!
# The two indexes of the room manager

`rooms` finds the members of a room and `connRoom` the room of a connection. `Inverse` says that
each of them can be read off the other and that no room is kept without members. `join` keeps it
because it edits both indexes and removes a room with its last member, `relay` because the
`rooms_[room_id]` of its broadcast only ever meets a room that is there. A `leave` keeps it unless
`dump` throws, which leaves the entry of an emptied room behind (`leave_keeps_empty_room`).

`rooms_along_iff` states it for every sequence of calls, together with what each call does to the
membership: all of it holds exactly when every `join` names a room whose name can be dumped.
-/

set_option autoImplicit false

namespace CppMeet.Signaling.RoomIndex

open CppMeet.Lib.HashMap CppMeet.Lib.Run CppMeet.Signaling.Document CppMeet.Signaling.Room
open CppMeet.Signaling.Room.RoomManager

/-- A call of a room manager, with the iteration order of its loops. -/
inductive Request where
  | join (order : SetOrder ConnId) (connId : ConnId) (roomId : RoomId)
  | leave (order : SetOrder ConnId) (connId : ConnId)
  | relay (order : SetOrder ConnId) (sender : ConnId) (msgJson : String)

/-- The state after a call. -/
def serve (lib : JsonLib) (m : RoomManager) : Request → RoomManager
  | .join order connId roomId => (m.join lib order connId roomId).state
  | .leave order connId => (m.leave lib order connId).state
  | .relay order sender msgJson => (m.relay lib order sender msgJson).1

/-- The indexes are inverse to each other, and every room has a member. -/
structure Inverse (m : RoomManager) : Prop where
  consistent : m.Consistent
  nonempty : ∀ roomId members, m.rooms.lookup roomId = some members → members.Nonempty

variable {m : RoomManager}

theorem inverse_init (notify : Bool) : Inverse { notify } where
  consistent := consistent_init notify
  nonempty := by
    intro roomId members hroom
    cases hroom

namespace Inverse

/-- A connection with a room finds that room in `rooms`. -/
theorem lookup_rooms (h : Inverse m) {connId : ConnId} {roomId : RoomId}
    (hroom : m.connRoom.lookup connId = some roomId) :
    m.rooms.lookup roomId = some (m.members roomId) := by
  have hmem : connId ∈ m.members roomId := (h.consistent connId roomId).1 hroom
  rw [members] at hmem ⊢
  cases hlookup : m.rooms.lookup roomId with
  | none =>
      rw [hlookup] at hmem
      exact absurd hmem (Finset.notMem_empty connId)
  | some members => rfl

/-- The entry of a room is left out with its last member. -/
theorem dropMember_nonempty (h : Inverse m) (oldRoom : RoomId) (connId : ConnId) (roomId : RoomId)
    (members : Finset ConnId)
    (hroom : (m.dropMember oldRoom connId).rooms.lookup roomId = some members) :
    members.Nonempty := by
  rw [dropMember_rooms] at hroom
  -- either the room goes with its last member, or what is left of it is written back
  by_cases hempty : (m.members oldRoom).erase connId = ∅
  · rw [if_pos hempty, lookup_erase_ite] at hroom
    by_cases hold : roomId = oldRoom
    · rw [if_pos hold] at hroom
      cases hroom
    · rw [if_neg hold] at hroom
      exact h.nonempty roomId members hroom
  · rw [if_neg hempty, lookup_insert_ite] at hroom
    by_cases hold : roomId = oldRoom
    · rw [if_pos hold, Option.some.injEq] at hroom
      rw [← hroom]
      exact Finset.nonempty_of_ne_empty hempty
    · rw [if_neg hold] at hroom
      exact h.nonempty roomId members hroom

/-- Moving out keeps the maps inverse and leaves no empty room. -/
theorem moveOut (h : Inverse m) (connId : ConnId) : Inverse (m.moveOut connId) where
  consistent := h.consistent.moveOut connId
  nonempty := by
    intro roomId members hroom
    unfold RoomManager.moveOut at hroom
    cases hold : m.connRoom.lookup connId with
    | none =>
        rw [hold] at hroom
        exact h.nonempty roomId members hroom
    | some oldRoom =>
        rw [hold] at hroom
        exact h.dropMember_nonempty oldRoom connId roomId members hroom

/-- Unless `dump` throws, `leave` is the start of `join`. -/
theorem leave (h : Inverse m) (lib : JsonLib) (order : SetOrder ConnId) {connId : ConnId}
    (htext : ∀ roomId, connId ∈ m.members roomId → (lib.text roomId).isSome) :
    Inverse (m.leave lib order connId).state := by
  rcases leave_cases lib order connId with hstate | ⟨roomId, hroom, -, hnone⟩
  · rw [hstate]
    exact h.moveOut connId
  · have hsome := htext roomId ((h.consistent connId roomId).1 hroom)
    rw [hnone] at hsome
    cases hsome

theorem join (h : Inverse m) (lib : JsonLib) (order : SetOrder ConnId) (connId : ConnId)
    (roomId : RoomId) : Inverse (m.join lib order connId roomId).state where
  consistent := h.consistent.join lib order connId roomId
  nonempty := by
    intro roomId' members hroom
    rw [join_state] at hroom
    change ((m.moveOut connId).rooms.insert roomId _).lookup roomId' = _ at hroom
    rw [lookup_insert_ite] at hroom
    by_cases hnew : roomId' = roomId
    · rw [if_pos hnew, Option.some.injEq] at hroom
      rw [← hroom]
      exact Finset.insert_nonempty connId _
    · rw [if_neg hnew] at hroom
      exact (h.moveOut connId).nonempty roomId' members hroom

/-- The broadcast writes back the member set it finds. -/
theorem broadcast_state (h : Inverse m) (order : SetOrder ConnId) (sender : ConnId) (msg : Json) :
    (m.broadcast order sender msg).1 = m := by
  unfold broadcast
  cases hroom : m.connRoom.lookup sender with
  | none => rfl
  | some roomId =>
      cases msg.setField "from" (.int sender.toInt64) with
      | none => rfl
      | some out =>
          dsimp only
          -- `operator[]` creates nothing here, since the room of the sender has an entry
          rw [insert_of_lookup (h.lookup_rooms hroom)]

theorem relay_state (h : Inverse m) (lib : JsonLib) (order : SetOrder ConnId) (sender : ConnId)
    (msgJson : String) : (m.relay lib order sender msgJson).1 = m := by
  unfold relay
  cases lib.parse msgJson with
  | none => rfl
  | some msg =>
      dsimp only
      cases receiver msg with
      | none => exact h.broadcast_state order sender msg
      | some dest =>
          dsimp only
          split
          · rfl
          · rfl

end Inverse

/-! ## What a call does to the membership -/

/-- The connection is in the room and in no other one, the other connections are where they were,
and the reply lists the other members of the room. -/
structure Joined (lib : JsonLib) (m : RoomManager) (connId : ConnId) (roomId : RoomId)
    (out : Outcome Json) : Prop where
  room : ∀ roomId', connId ∈ out.state.members roomId' ↔ roomId' = roomId
  others : ∀ peer ≠ connId, ∀ roomId',
    peer ∈ out.state.members roomId' ↔ peer ∈ m.members roomId'
  reply : ∃ text, lib.text roomId = some text ∧
    ∃ peers : List ConnId, out.returned = some (roomInfo text peers) ∧ peers.Nodup ∧
      ∀ peer, peer ∈ peers ↔ peer ∈ out.state.members roomId ∧ peer ≠ connId

/-- The connection is in no room, and the other connections are where they were. -/
structure Left (m : RoomManager) (connId : ConnId) (m' : RoomManager) : Prop where
  gone : ∀ roomId, connId ∉ m'.members roomId
  room : m'.connRoom.lookup connId = none
  others : ∀ peer ≠ connId, ∀ roomId, peer ∈ m'.members roomId ↔ peer ∈ m.members roomId

/-- `join` moves its connection whether its reply can be dumped or not. -/
theorem Inverse.joined_iff (h : Inverse m) (lib : JsonLib) (order : SetOrder ConnId)
    (connId : ConnId) (roomId : RoomId) :
    Joined lib m connId roomId (m.join lib order connId roomId) ↔ (lib.text roomId).isSome := by
  constructor
  · rintro ⟨-, -, text, htext, -⟩
    rw [htext]
    rfl
  · intro hsome
    obtain ⟨text, htext⟩ := Option.isSome_iff_exists.1 hsome
    refine ⟨fun roomId' => ?_, fun peer hpeer roomId' => ?_, text, htext, ?_⟩
    · rw [join_members lib order h.consistent]
      by_cases hroom : roomId' = roomId
      · rw [if_pos hroom]
        exact iff_of_true (Finset.mem_insert_self connId _) hroom
      · rw [if_neg hroom]
        exact iff_of_false (Finset.notMem_erase connId _) hroom
    · rw [join_members lib order h.consistent]
      by_cases hroom : roomId' = roomId
      · rw [if_pos hroom, Finset.mem_insert, or_iff_right hpeer]
      · rw [if_neg hroom, Finset.mem_erase, and_iff_right hpeer]
    · have hreply : (m.join lib order connId roomId).returned = (lib.text roomId).map _ :=
        join_returned connId roomId
      rw [htext] at hreply
      exact ⟨_, hreply, others_nodup roomId connId, fun _ => mem_others⟩

/-- What a leave does when it does not throw. -/
theorem Inverse.left (h : Inverse m) (lib : JsonLib) (order : SetOrder ConnId) (connId : ConnId) :
    Left m connId (m.leave lib order connId).state where
  gone := by
    intro roomId
    rw [leave_members lib order h.consistent]
    exact Finset.notMem_erase connId _
  room := by
    rw [leave_connRoom, if_pos rfl]
  others := by
    intro peer hpeer roomId
    rw [leave_members lib order h.consistent, Finset.mem_erase, and_iff_right hpeer]

/-! ## Runs -/

/-- A connection has a room in `connRoom` exactly when it is a member of it, so it is in one room at
most, and no room is without members. -/
structure Indexed (m : RoomManager) : Prop where
  inverse : ∀ connId roomId, m.connRoom.lookup connId = some roomId ↔ connId ∈ m.members roomId
  unique : ∀ connId roomId roomId', connId ∈ m.members roomId → connId ∈ m.members roomId' →
    roomId' = roomId
  nonempty : ∀ roomId, m.rooms.lookup roomId ≠ some ∅

theorem indexed_iff : Indexed m ↔ Inverse m := by
  constructor
  · intro h
    refine ⟨h.inverse, fun roomId members hroom => Finset.nonempty_of_ne_empty ?_⟩
    rintro rfl
    exact h.nonempty roomId hroom
  · intro h
    refine ⟨h.consistent, fun _ _ _ hmem hmem' => h.consistent.eq_of_mem hmem hmem', ?_⟩
    exact fun roomId hroom => Finset.not_nonempty_empty (h.nonempty roomId ∅ hroom)

/-- What is promised of a call in the state before it: the indexes are in order after it, and it
does to the membership what it is for. -/
def Fulfils (lib : JsonLib) (m : RoomManager) (request : Request) : Prop :=
  Indexed (serve lib m request) ∧
    match request with
    | .join order connId roomId => Joined lib m connId roomId (m.join lib order connId roomId)
    | .leave order connId => Left m connId (m.leave lib order connId).state
    | .relay order sender msgJson => (m.relay lib order sender msgJson).1.rooms = m.rooms ∧
        (m.relay lib order sender msgJson).1.connRoom = m.connRoom

/-- A `join` names a room whose name can be dumped. -/
def NamesText (lib : JsonLib) : Request → Prop
  | .join _ _ roomId => (lib.text roomId).isSome
  | .leave .. | .relay .. => True

/-- The indexes are inverse, and every room with members has a name that can be dumped. -/
structure Named (lib : JsonLib) (m : RoomManager) : Prop where
  inverse : Inverse m
  text : ∀ roomId, ∀ connId ∈ m.members roomId, (lib.text roomId).isSome

theorem named_init (lib : JsonLib) (notify : Bool) : Named lib { notify } where
  inverse := inverse_init notify
  text := by
    intro roomId connId hmem
    exact absurd hmem (Finset.notMem_empty connId)

variable {lib : JsonLib}

/-- Every request keeps the names of all rooms text. -/
theorem Named.serve (h : Named lib m) {request : Request} (hname : NamesText lib request) :
    Named lib (RoomIndex.serve lib m request) := by
  cases request with
  | join order connId roomId =>
      refine ⟨h.inverse.join lib order connId roomId, fun roomId' peer hmem => ?_⟩
      change peer ∈ (m.join lib order connId roomId).state.members roomId' at hmem
      rw [join_members lib order h.inverse.consistent] at hmem
      by_cases hroom : roomId' = roomId
      · rw [hroom]
        exact hname
      · rw [if_neg hroom] at hmem
        exact h.text roomId' peer (Finset.mem_of_mem_erase hmem)
  | leave order connId =>
      refine ⟨h.inverse.leave lib order fun roomId => h.text roomId connId, ?_⟩
      intro roomId peer hmem
      change peer ∈ (m.leave lib order connId).state.members roomId at hmem
      rw [leave_members lib order h.inverse.consistent] at hmem
      exact h.text roomId peer (Finset.mem_of_mem_erase hmem)
  | relay order sender msgJson =>
      rw [RoomIndex.serve, h.inverse.relay_state lib order sender msgJson]
      exact h

/-- In such a state a call keeps the promise exactly when its name can be dumped. -/
theorem fulfils_iff (h : Named lib m) (request : Request) :
    Fulfils lib m request ↔ NamesText lib request := by
  constructor
  · rintro ⟨-, hcall⟩
    cases request with
    | join order connId roomId => exact (h.inverse.joined_iff lib order connId roomId).1 hcall
    | leave order connId => trivial
    | relay order sender msgJson => trivial
  · intro hname
    refine ⟨indexed_iff.2 (h.serve hname).inverse, ?_⟩
    cases request with
    | join order connId roomId =>
        exact (h.inverse.joined_iff lib order connId roomId).2 hname
    | leave order connId => exact h.inverse.left lib order connId
    | relay order sender msgJson =>
        change (m.relay lib order sender msgJson).1.rooms = m.rooms ∧
          (m.relay lib order sender msgJson).1.connRoom = m.connRoom
        rw [h.inverse.relay_state lib order sender msgJson]
        exact ⟨rfl, rfl⟩

/-- Of a sequence of `join`, `leave` and `relay` calls, with any connections, room names and
messages, every call leaves the indexes in order and does what it is for exactly when every room
that is joined has a name that `dump` can write. -/
theorem rooms_along_iff (lib : JsonLib) (notify : Bool) (requests : List Request) :
    Along (serve lib) (Fulfils lib) { notify } requests ↔
      ∀ request ∈ requests, NamesText lib request := by
  have hcongr : Along (serve lib) (Fulfils lib) { notify } requests ↔
      Along (serve lib) (fun _ => NamesText lib) { notify } requests := by
    refine along_congr (I := Named lib) ?_ (fun m request h => fulfils_iff h request)
      (named_init lib notify) requests
    intro m request h hfulfils
    exact h.serve ((fulfils_iff h request).1 hfulfils)
  rw [hcongr]
  exact along_inputs_iff _ requests

/-- A connection joins a room whose name is not UTF-8 and leaves it. -/
noncomputable def strangeRoom : List Request :=
  [.join someOrder 1 [0xFF], .leave someOrder 1]

/-- The `join` is not answered, and the `leave` keeps the room without a member. -/
theorem leave_keeps_empty_room :
    ¬ Along (serve asciiLib) (Fulfils asciiLib) { notify := true } strangeRoom ∧
      (run (serve asciiLib) { notify := true } strangeRoom).rooms.lookup [0xFF] = some ∅ := by
  have htext : asciiLib.text [0xFF] = none := rfl
  constructor
  · rw [rooms_along_iff]
    intro hnames
    have hname : (asciiLib.text [0xFF]).isSome := hnames _ List.mem_cons_self
    rw [htext] at hname
    cases hname
  · have hjoin := join_members asciiLib someOrder (consistent_init true) 1 [0xFF] [0xFF]
    rw [if_pos rfl] at hjoin
    have hroom := ((consistent_init true).join asciiLib someOrder 1 [0xFF] 1 [0xFF]).2
      (hjoin ▸ Finset.mem_insert_self 1 _)
    change (RoomManager.leave asciiLib (RoomManager.join asciiLib { notify := true } someOrder 1
      [0xFF]).state someOrder 1).state.rooms.lookup [0xFF] = _
    rw [leave_throws asciiLib someOrder hroom (join_notify asciiLib someOrder 1 [0xFF]) htext,
      lookup_insert_ite, if_pos rfl, hjoin]
    rfl

end CppMeet.Signaling.RoomIndex
