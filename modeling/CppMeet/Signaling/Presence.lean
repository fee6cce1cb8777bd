import CppMeet.Signaling.Room
import Mathlib.Logic.Function.Basic

/-!
# Presence views

A client keeps a view of its room: the `peers` list of the `room_info` reply, to which every
`peer_joined` of that room adds a peer and from which every `peer_left` takes one away. A `Session`
is a room manager together with the views of all connections. `Agree` says that the view of every
member of a room is the room without the member itself.

`leave` tells the members that stay behind. The move out of the old room at the start of `join`
does not, so a view there keeps the peer that has left. A room name that cannot be dumped ends the
call before anybody is told, and before `join` has replied. `Told` is the exact condition on a call
under which the views still agree after it (`agree_step_iff`), and `agree_along_iff` carries this to
whole runs.
-/

set_option autoImplicit false

namespace CppMeet.Signaling.Presence

open CppMeet.Lib.HashMap CppMeet.Lib.Run CppMeet.Signaling.Document CppMeet.Signaling.Room
open CppMeet.Signaling.Room.RoomManager

/-- What a client knows: the room of its latest `room_info` and the peers in it. -/
structure View where
  room : Option String := none
  peers : Finset ConnId := ∅

namespace View

/-- The peer ids of a `peers` array. -/
def peerIds (elems : List Json) : List ConnId :=
  elems.filterMap fun elem => match elem with
    | .int n => some n.toInt32
    | _ => none

/-- The view after the reply of `join`. -/
def onReply (v : View) (reply : Json) : View :=
  match reply.field "room_id", reply.field "peers" with
  | some (.str roomId), some (.arr elems) => ⟨some roomId, (peerIds elems).toFinset⟩
  | _, _ => v

/-- The view after a notification; one for another room changes nothing. -/
def onNotification (v : View) (msg : Json) : View :=
  match msg.field "type", msg.field "room_id", msg.field "peer_id" with
  | some (.str kind), some (.str roomId), some (.int peerId) =>
      if v.room = some roomId then
        if kind = "peer_joined" then { v with peers := insert peerId.toInt32 v.peers }
        else if kind = "peer_left" then { v with peers := v.peers.erase peerId.toInt32 }
        else v
      else v
  | _, _, _ => v

/-- The reply to a join names the room and the others in it. -/
theorem onReply_roomInfo (v : View) (roomId : String) (peers : List ConnId) :
    v.onReply (roomInfo roomId peers) = ⟨some roomId, peers.toFinset⟩ := by
  have hids : peerIds (peers.map fun p => .int p.toInt64) = peers := by
    rw [peerIds, List.filterMap_map]
    simp
  simp [onReply, roomInfo, Json.field, member, hids]

theorem onNotification_peerJoined {v : View} {roomId : String} (h : v.room = some roomId)
    (connId : ConnId) :
    v.onNotification (peerJoined connId roomId) = { v with peers := insert connId v.peers } := by
  simp [onNotification, peerJoined, Json.field, member, h]

theorem onNotification_peerLeft {v : View} {roomId : String} (h : v.room = some roomId)
    (connId : ConnId) :
    v.onNotification (peerLeft connId roomId) = { v with peers := v.peers.erase connId } := by
  simp [onNotification, peerLeft, Json.field, member, h]

end View

/-- The view of every connection. -/
abbrev Views := ConnId → View

/-- The addressed connection takes the notification in. -/
def deliver (views : Views) (n : Notification) : Views :=
  Function.update views n.connId ((views n.connId).onNotification n.msg)

/-- A room manager and the views of its clients. -/
structure Session where
  manager : RoomManager
  views : Views := fun _ => {}

/-- One call: the notifications arrive, and after them the reply of a `join`, if there is one. -/
def step (lib : JsonLib) (s : Session) : Call → Session
  | .join order connId roomId =>
      let outcome := s.manager.join lib order connId roomId
      let views := outcome.sent.foldl deliver s.views
      { manager := outcome.state
        views := Function.update views connId
          (outcome.returned.elim (views connId) (views connId).onReply) }
  | .leave order connId =>
      let outcome := s.manager.leave lib order connId
      { manager := outcome.state, views := outcome.sent.foldl deliver s.views }

/-- The view of the connection is the room without the connection. -/
def AgreesAt (s : Session) (roomId : RoomId) (connId : ConnId) : Prop :=
  (s.views connId).peers = (s.manager.members roomId).erase connId

/-- The views of all members of all rooms agree with the rooms. -/
def Agree (s : Session) : Prop :=
  ∀ roomId, ∀ connId ∈ s.manager.members roomId, AgreesAt s roomId connId

/-- The room has no member other than the connection. -/
def Alone (m : RoomManager) (connId : ConnId) (roomId : RoomId) : Prop :=
  ∀ peer ∈ m.members roomId, peer = connId

/-- The members of a room can be told: a callback is installed and the room name can be dumped. -/
def CanTell (lib : JsonLib) (m : RoomManager) (roomId : RoomId) : Prop :=
  m.notify = true ∧ (lib.text roomId).isSome

instance (lib : JsonLib) (m : RoomManager) (roomId : RoomId) : Decidable (CanTell lib m roomId) :=
  inferInstanceAs (Decidable (_ ∧ _))

/-- Every connection whose view a call makes stale is told, and nobody is left in a room that `join`
moves the connection out of. A connection that gets no reply was in a room already, which it had to
itself, or its view is empty anyway. -/
def Told (lib : JsonLib) (s : Session) : Call → Prop
  | .join _ connId roomId =>
      (CanTell lib s.manager roomId ∨ connId ∈ s.manager.members roomId ∨
        Alone s.manager connId roomId) ∧
      (∀ oldRoom ≠ roomId, connId ∈ s.manager.members oldRoom → Alone s.manager connId oldRoom) ∧
      ((lib.text roomId).isSome ∨ (∃ room, connId ∈ s.manager.members room) ∨
        (s.views connId).peers = ∅)
  | .leave _ connId =>
      ∀ roomId, connId ∈ s.manager.members roomId →
        CanTell lib s.manager roomId ∨ Alone s.manager connId roomId

/-- Members of a room whose name can be dumped have it in their view. -/
def Located (lib : JsonLib) (s : Session) : Prop :=
  ∀ roomId, ∀ connId ∈ s.manager.members roomId, ∀ text, lib.text roomId = some text →
    (s.views connId).room = some text

/-! ## Member sets without one peer -/

theorem erase_insert_eq_erase_iff {S : Finset ConnId} {connId peer : ConnId}
    (hne : peer ≠ connId) : (insert connId S).erase peer = S.erase peer ↔ connId ∈ S := by
  rw [Finset.erase_insert_of_ne hne.symm, Finset.insert_eq_self, Finset.mem_erase]
  exact and_iff_right hne.symm

theorem erase_erase_eq_erase_iff {S : Finset ConnId} {connId peer : ConnId}
    (hne : peer ≠ connId) : (S.erase connId).erase peer = S.erase peer ↔ connId ∉ S := by
  rw [Finset.erase_right_comm, Finset.erase_eq_self, Finset.mem_erase]
  exact not_congr (and_iff_right hne.symm)

theorem erase_eq_empty_of_alone {m : RoomManager} {connId : ConnId} {roomId : RoomId}
    (h : Alone m connId roomId) : (m.members roomId).erase connId = ∅ := by
  refine Finset.eq_empty_of_forall_notMem fun peer hpeer => ?_
  obtain ⟨hne, hmem⟩ := Finset.mem_erase.1 hpeer
  exact hne (h peer hmem)

/-! ## One call -/

/-- Each connection of the list gets the message once, and nobody else does. -/
theorem views_notifyAll (m : RoomManager) {peers : List ConnId} (hnodup : peers.Nodup)
    (msg : Json) (views : Views) (connId : ConnId) :
    (m.notifyAll peers msg).foldl deliver views connId =
      if m.notify = true ∧ connId ∈ peers then (views connId).onNotification msg
      else views connId := by
  rw [notifyAll]
  by_cases hnotify : m.notify = true
  · rw [if_pos hnotify]
    simp only [hnotify, true_and]
    induction peers generalizing views with
    | nil => rfl
    | cons peer peers ih =>
        rw [List.nodup_cons] at hnodup
        rw [List.map_cons, List.foldl_cons, ih hnodup.2, deliver]
        by_cases hpeer : connId = peer
        · simp [hpeer, hnodup.1]
        · simp [hpeer]
  · simp [hnotify]

section Step

variable {lib : JsonLib} {s : Session} {order : SetOrder ConnId} {connId : ConnId} {roomId : RoomId}

/-- Without a text for the room name, `join` changes no view. -/
theorem step_join_views_none (htext : lib.text roomId = none) :
    (step lib s (.join order connId roomId)).views = s.views := by
  simp only [step]
  rw [join_sent, join_returned, htext]
  exact Function.update_eq_self connId s.views

theorem step_join_view_self (h : s.manager.Consistent) {text : String}
    (htext : lib.text roomId = some text) :
    (step lib s (.join order connId roomId)).views connId =
      ⟨some text, (s.manager.members roomId).erase connId⟩ := by
  simp only [step]
  rw [Function.update_self, join_returned, htext, Option.map_some, Option.elim_some,
    View.onReply_roomInfo, View.mk.injEq]
  refine ⟨rfl, ?_⟩
  ext peer
  rw [List.mem_toFinset, mem_others_join h, Finset.mem_erase, and_comm]

/-- The others see the one who joins, if they can be told. -/
theorem step_join_view_other (h : s.manager.Consistent) (hloc : Located lib s) {peer : ConnId}
    (hne : peer ≠ connId) :
    (step lib s (.join order connId roomId)).views peer =
      if CanTell lib s.manager roomId ∧ peer ∈ s.manager.members roomId then
        { s.views peer with peers := insert connId (s.views peer).peers }
      else s.views peer := by
  cases htext : lib.text roomId with
  | none =>
      rw [step_join_views_none htext, if_neg]
      rintro ⟨⟨-, hsome⟩, -⟩
      rw [htext] at hsome
      cases hsome
  | some text =>
      have hnotify := join_notify (m := s.manager) lib order connId roomId
      simp only [step]
      rw [Function.update_of_ne hne, join_sent, htext, views_notifyAll _ (others_nodup _ _),
        hnotify]
      by_cases htold : CanTell lib s.manager roomId ∧ peer ∈ s.manager.members roomId
      · rw [if_pos htold, if_pos ⟨htold.1.1, (mem_others_join h).2 ⟨htold.2, hne⟩⟩,
          View.onNotification_peerJoined (hloc roomId peer htold.2 text htext)]
      · rw [if_neg htold, if_neg]
        rintro ⟨htrue, hpeer⟩
        exact htold ⟨⟨htrue, htext ▸ rfl⟩, ((mem_others_join h).1 hpeer).1⟩

/-- The others see that somebody left, if they can be told. -/
theorem step_leave_view (h : s.manager.Consistent) (hloc : Located lib s)
    (hmem : connId ∈ s.manager.members roomId) (peer : ConnId) :
    (step lib s (.leave order connId)).views peer =
      if CanTell lib s.manager roomId ∧ peer ∈ s.manager.members roomId ∧ peer ≠ connId then
        { s.views peer with peers := (s.views peer).peers.erase connId }
      else s.views peer := by
  simp only [step]
  rw [leave_sent h hmem]
  cases htext : lib.text roomId with
  | none =>
      -- `dump` throws before anybody is told
      rw [if_neg]
      · rfl
      · rintro ⟨⟨-, hsome⟩, -⟩
        rw [htext] at hsome
        cases hsome
  | some text =>
      have hpeer : peer ∈ (order ((s.manager.members roomId).erase connId)).visits ↔
          peer ∈ s.manager.members roomId ∧ peer ≠ connId := by
        rw [(order _).mem_iff, Finset.mem_erase, and_comm]
      rw [views_notifyAll _ (order _).nodup]
      by_cases htold :
          CanTell lib s.manager roomId ∧ peer ∈ s.manager.members roomId ∧ peer ≠ connId
      · rw [if_pos htold, if_pos ⟨htold.1.1, hpeer.2 htold.2⟩,
          View.onNotification_peerLeft (hloc roomId peer htold.2.1 text htext)]
      · rw [if_neg htold, if_neg]
        rintro ⟨htrue, hmem⟩
        exact htold ⟨⟨htrue, htext ▸ rfl⟩, hpeer.1 hmem⟩

/-- A connection that is in no room leaves none, and nobody is told. -/
theorem step_leave_views_none (hroom : s.manager.connRoom.lookup connId = none) :
    (step lib s (.leave order connId)).views = s.views := by
  simp only [step, RoomManager.leave, hroom, List.foldl_nil]

/-- Notifications never change the room of a view, and only `join` moves a connection. -/
theorem Located.step (h : s.manager.Consistent) (hloc : Located lib s) (c : Call) :
    Located lib (Presence.step lib s c) := by
  intro room peer hmem text htext
  cases c with
  | join order connId roomId =>
      change peer ∈ (s.manager.join lib order connId roomId).state.members room at hmem
      rw [join_members lib order h] at hmem
      by_cases hpeer : peer = connId
      · -- the connection itself is in the room of the call and in no other
        by_cases hroom : room = roomId
        · rw [hroom] at htext
          rw [hpeer, step_join_view_self h htext]
        · rw [if_neg hroom, hpeer] at hmem
          exact absurd hmem (Finset.notMem_erase _ _)
      · have hold : peer ∈ s.manager.members room := by
          split_ifs at hmem with hroom
          · exact Finset.mem_of_mem_insert_of_ne hmem hpeer
          · exact Finset.mem_of_mem_erase hmem
        rw [step_join_view_other h hloc hpeer]
        split_ifs
        · exact hloc room peer hold text htext
        · exact hloc room peer hold text htext
  | leave order connId =>
      change peer ∈ (s.manager.leave lib order connId).state.members room at hmem
      rw [leave_members lib order h] at hmem
      have hold : peer ∈ s.manager.members room := Finset.mem_of_mem_erase hmem
      cases hroom : s.manager.connRoom.lookup connId with
      | none =>
          rw [step_leave_views_none hroom]
          exact hloc room peer hold text htext
      | some roomId =>
          rw [step_leave_view h hloc ((h connId roomId).1 hroom)]
          split_ifs
          · exact hloc room peer hold text htext
          · exact hloc room peer hold text htext

variable (lib order) {room : RoomId} {peer : ConnId}

/-- The reply of a `join` is the whole room. Without one the view is what it was. -/
theorem agreesAt_join_self (h : s.manager.Consistent) (hagree : Agree s)
    (htold : CanTell lib s.manager roomId ∨ connId ∈ s.manager.members roomId ∨
      Alone s.manager connId roomId)
    (hmove : ∀ oldRoom ≠ roomId, connId ∈ s.manager.members oldRoom →
      Alone s.manager connId oldRoom) :
    AgreesAt (step lib s (.join order connId roomId)) roomId connId ↔
      ((lib.text roomId).isSome ∨ (∃ room, connId ∈ s.manager.members room) ∨
        (s.views connId).peers = ∅) := by
  have hmembers := join_members lib order h connId roomId roomId
  rw [if_pos rfl] at hmembers
  change ((step lib s (.join order connId roomId)).views connId).peers = Finset.erase
    ((s.manager.join lib order connId roomId).state.members roomId) connId ↔ _
  rw [hmembers, Finset.erase_insert_eq_erase]
  cases htext : lib.text roomId with
  | some text =>
      rw [step_join_view_self h htext]
      exact iff_of_true rfl (Or.inl rfl)
  | none =>
      rw [step_join_views_none htext]
      by_cases hmem : connId ∈ s.manager.members roomId
      · exact iff_of_true (hagree roomId connId hmem) (Or.inr (Or.inl ⟨roomId, hmem⟩))
      · -- the connection is the only member of the room it joins
        have halone : Alone s.manager connId roomId := by
          rcases htold with ⟨-, hsome⟩ | hin | halone
          · rw [htext] at hsome
            cases hsome
          · exact absurd hin hmem
          · exact halone
        rw [erase_eq_empty_of_alone halone]
        constructor
        · exact fun hview => Or.inr (Or.inr hview)
        · rintro (hsome | ⟨oldRoom, hold⟩ | hview)
          · cases hsome
          · have hne : oldRoom ≠ roomId := fun heq => hmem (heq ▸ hold)
            rw [hagree oldRoom connId hold]
            exact erase_eq_empty_of_alone (hmove oldRoom hne hold)
          · exact hview

/-- In the new room the views agree exactly if the others can be told, or nothing is new to them. -/
theorem agreesAt_join_new (h : s.manager.Consistent) (hloc : Located lib s) (hagree : Agree s)
    (hpeer : peer ∈ s.manager.members roomId) (hne : peer ≠ connId) :
    AgreesAt (step lib s (.join order connId roomId)) roomId peer ↔
      CanTell lib s.manager roomId ∨ connId ∈ s.manager.members roomId := by
  have hmembers := join_members lib order h connId roomId roomId
  rw [if_pos rfl] at hmembers
  change ((step lib s (.join order connId roomId)).views peer).peers = Finset.erase
    ((s.manager.join lib order connId roomId).state.members roomId) peer ↔ _
  rw [step_join_view_other h hloc hne, hmembers]
  by_cases htell : CanTell lib s.manager roomId
  · rw [if_pos ⟨htell, hpeer⟩, hagree roomId peer hpeer]
    simp [htell, Finset.erase_insert_of_ne hne.symm]
  · rw [if_neg fun ht => htell ht.1, hagree roomId peer hpeer, eq_comm,
      erase_insert_eq_erase_iff hne]
    simp [htell]

/-- In the old room they agree exactly if nobody has left it. -/
theorem agreesAt_join_old (h : s.manager.Consistent) (hloc : Located lib s) (hagree : Agree s)
    (hroom : room ≠ roomId) (hpeer : peer ∈ s.manager.members room) (hne : peer ≠ connId) :
    AgreesAt (step lib s (.join order connId roomId)) room peer ↔
      connId ∉ s.manager.members room := by
  have hmembers := join_members lib order h connId roomId room
  have hnot : ¬ (CanTell lib s.manager roomId ∧ peer ∈ s.manager.members roomId) :=
    fun ht => hroom (h.eq_of_mem ht.2 hpeer)
  rw [if_neg hroom] at hmembers
  change ((step lib s (.join order connId roomId)).views peer).peers = Finset.erase
    ((s.manager.join lib order connId roomId).state.members room) peer ↔ _
  rw [step_join_view_other h hloc hne, hmembers, if_neg hnot, hagree room peer hpeer, eq_comm,
    erase_erase_eq_erase_iff hne]

/-- After a leave they agree exactly if the others can be told, or nobody has left. -/
theorem agreesAt_leave (h : s.manager.Consistent) (hloc : Located lib s) (hagree : Agree s)
    (hpeer : peer ∈ s.manager.members room) (hne : peer ≠ connId) :
    AgreesAt (step lib s (.leave order connId)) room peer ↔
      CanTell lib s.manager room ∨ connId ∉ s.manager.members room := by
  change ((step lib s (.leave order connId)).views peer).peers = Finset.erase
    ((s.manager.leave lib order connId).state.members room) peer ↔ _
  rw [leave_members lib order h]
  by_cases hmem : connId ∈ s.manager.members room
  · rw [step_leave_view h hloc hmem]
    by_cases htell : CanTell lib s.manager room
    · rw [if_pos ⟨htell, hpeer, hne⟩, hagree room peer hpeer, Finset.erase_right_comm]
      simp [htell]
    · -- nobody is told, and the view still holds the one that left
      rw [if_neg fun ht => htell ht.1, hagree room peer hpeer, eq_comm,
        erase_erase_eq_erase_iff hne]
      simp [htell]
  · -- only the members of the room that was left are told
    have hview : (step lib s (.leave order connId)).views peer = s.views peer := by
      cases hroom : s.manager.connRoom.lookup connId with
      | none => rw [step_leave_views_none hroom]
      | some roomId =>
          have hmem' := (h connId roomId).1 hroom
          rw [step_leave_view h hloc hmem', if_neg]
          rintro ⟨-, ht, -⟩
          exact hmem (h.eq_of_mem ht hpeer ▸ hmem')
    rw [hview, hagree room peer hpeer, Finset.erase_eq_of_notMem hmem]
    simp [hmem]

/-- A `join` keeps the views in agreement exactly when everybody concerned is told. -/
theorem agree_join_iff (h : s.manager.Consistent) (hloc : Located lib s) (hagree : Agree s) :
    Agree (step lib s (.join order connId roomId)) ↔
      Told lib s (.join order connId roomId) := by
  have hself : connId ∈ (s.manager.join lib order connId roomId).state.members roomId := by
    rw [join_members lib order h, if_pos rfl]
    exact Finset.mem_insert_self connId _
  have hmembers (room : RoomId) (peer : ConnId) (hne : peer ≠ connId) :
      peer ∈ (s.manager.join lib order connId roomId).state.members room ↔
        peer ∈ s.manager.members room := by
    rw [join_members lib order h]
    split_ifs
    · simp [hne]
    · simp [hne]
  constructor
  · intro hafter
    have htold : CanTell lib s.manager roomId ∨ connId ∈ s.manager.members roomId ∨
        Alone s.manager connId roomId := by
      -- a member of the new room that is not told does not know the connection
      by_contra hnone
      rw [← or_assoc, not_or] at hnone
      refine hnone.2 fun peer hpeer => ?_
      by_contra hne
      refine hnone.1 ((agreesAt_join_new lib order h hloc hagree hpeer hne).1 ?_)
      exact hafter roomId peer ((hmembers roomId peer hne).2 hpeer)
    have hmove : ∀ oldRoom ≠ roomId, connId ∈ s.manager.members oldRoom →
        Alone s.manager connId oldRoom := by
      -- a member of the old room is never told and keeps the connection in its view
      intro oldRoom hold hmem peer hpeer
      by_contra hne
      refine (agreesAt_join_old lib order h hloc hagree hold hpeer hne).1 ?_ hmem
      exact hafter oldRoom peer ((hmembers oldRoom peer hne).2 hpeer)
    refine ⟨htold, hmove, ?_⟩
    exact (agreesAt_join_self lib order h hagree htold hmove).1 (hafter roomId connId hself)
  · rintro ⟨htold, hmove, hreply⟩ room peer hpeer
    by_cases hne : peer = connId
    · subst hne
      have hroom : room = roomId := by
        by_contra hroom
        change peer ∈ (s.manager.join lib order peer roomId).state.members room at hpeer
        rw [join_members lib order h, if_neg hroom] at hpeer
        exact Finset.notMem_erase _ _ hpeer
      rw [hroom]
      exact (agreesAt_join_self lib order h hagree htold hmove).2 hreply
    · have hold : peer ∈ s.manager.members room := (hmembers room peer hne).1 hpeer
      by_cases hroom : room = roomId
      · subst hroom
        rw [agreesAt_join_new lib order h hloc hagree hold hne]
        rcases htold with htell | hmem | halone
        · exact Or.inl htell
        · exact Or.inr hmem
        · exact absurd (halone peer hold) hne
      · rw [agreesAt_join_old lib order h hloc hagree hroom hold hne]
        exact fun hmem => hne (hmove room hroom hmem peer hold)

/-- After a leave all views agree exactly if it was told. -/
theorem agree_leave_iff (h : s.manager.Consistent) (hloc : Located lib s) (hagree : Agree s) :
    Agree (step lib s (.leave order connId)) ↔ Told lib s (.leave order connId) := by
  have hmembers (room : RoomId) (peer : ConnId) :
      peer ∈ (s.manager.leave lib order connId).state.members room ↔
        peer ≠ connId ∧ peer ∈ s.manager.members room := by
    rw [leave_members lib order h, Finset.mem_erase]
  constructor
  · -- a peer that stays behind untold would have a stale view
    intro hafter room hmem
    by_contra hnone
    rw [not_or] at hnone
    refine hnone.2 fun peer hpeer => ?_
    by_contra hne
    have hpeer' := (hmembers room peer).2 ⟨hne, hpeer⟩
    rcases (agreesAt_leave lib order h hloc hagree hpeer hne).1 (hafter room peer hpeer') with
      htell | hnot
    · exact hnone.1 htell
    · exact hnot hmem
  · -- whoever stays behind was told, or nobody does
    intro htold room peer hpeer
    obtain ⟨hne, hold⟩ := (hmembers room peer).1 hpeer
    rw [agreesAt_leave lib order h hloc hagree hold hne]
    by_cases hmem : connId ∈ s.manager.members room
    · rcases htold room hmem with htell | halone
      · exact Or.inl htell
      · exact absurd (halone peer hold) hne
    · exact Or.inr hmem

end Step

/-! ## Runs -/

/-- Nobody has joined yet. -/
def start (notify : Bool) : Session := { manager := { notify } }

/-- The indexes agree, members have their room in their view, and the views agree. -/
structure Inv (lib : JsonLib) (s : Session) : Prop where
  consistent : s.manager.Consistent
  located : Located lib s
  agree : Agree s

theorem inv_start (lib : JsonLib) (notify : Bool) : Inv lib (start notify) where
  consistent := consistent_init notify
  located roomId connId hmem := by simp [start, members] at hmem
  agree roomId connId hmem := by simp [start, members] at hmem

variable {lib : JsonLib} {s : Session}

theorem step_manager (c : Call) : (step lib s c).manager = call lib s.manager c := by
  cases c with
  | join order connId roomId => rfl
  | leave order connId => rfl

/-- After any call all views agree exactly if it was told. -/
theorem agree_step_iff (h : Inv lib s) (c : Call) : Agree (step lib s c) ↔ Told lib s c := by
  cases c with
  | join order connId roomId => exact agree_join_iff lib order h.consistent h.located h.agree
  | leave order connId => exact agree_leave_iff lib order h.consistent h.located h.agree

/-- A call after which the views agree keeps the invariant. -/
theorem Inv.step (h : Inv lib s) (c : Call) (hagree : Agree (Presence.step lib s c)) :
    Inv lib (Presence.step lib s c) := by
  refine ⟨?_, h.located.step h.consistent c, hagree⟩
  rw [step_manager]
  exact consistent_call lib h.consistent c

/-- The views agree with the rooms after every call of a run exactly when everybody concerned is
told at every call. -/
theorem agree_along_iff (lib : JsonLib) (notify : Bool) (calls : List Call) :
    Along (step lib) (fun s c => Agree (step lib s c)) (start notify) calls ↔
      Along (step lib) (Told lib) (start notify) calls := by
  refine along_congr (I := Inv lib) (fun s c h hagree => h.step c hagree) ?_
    (inv_start lib notify) calls
  exact fun s c h => agree_step_iff h c

/-! ## A move to another room -/

/-- Connections 1 and 2 join room `A`, and 2 moves on to room `B`. -/
noncomputable def moveOn : List Call :=
  [.join someOrder 1 [0x41], .join someOrder 2 [0x41], .join someOrder 2 [0x42]]

/-- The view of connection 1 keeps connection 2 after it has moved on. -/
theorem views_stale_after_moveOn :
    ¬ Along (step asciiLib) (fun s c => Agree (step asciiLib s c)) (start true) moveOn := by
  rintro ⟨hfirst, hsecond, hmove, -⟩
  have hinv := ((inv_start asciiLib true).step _ hfirst).step _ hsecond
  have hne : (1 : ConnId) ≠ 2 := by decide
  obtain ⟨hstays, hmoves⟩ := mem_twoJoins asciiLib someOrder hne [0x41]
  have htold := (agree_step_iff hinv (.join someOrder 2 [0x42])).1 hmove
  exact hne (htold.2.1 [0x41] (by decide) hmoves 1 hstays)

end CppMeet.Signaling.Presence
