import CppMeet.Lib.Buffer
import CppMeet.Lib.Enrollment
import CppMeet.Lib.HashMap
import CppMeet.Lib.Run
import Mathlib.Data.List.Count

/-!
# The SFU room

`SfuRoom` gives every peer that it registers an SSRC of its own and forwards the packets of a peer
to the others. `routeRtp` writes that SSRC over the one in the packet; `routeRtcp` forwards the
bytes as they are. Both return the calls of `send_fn_`, in order.

The registrations of a run are counted by a `Registry` that sees the calls only (`Session`). The
room follows it (`Follows`): the peers in `peers` and the keys of `peerSsrcMap` are the registered
ones, and registration `i` has the SSRC `ssrcOf i`.
-/

set_option autoImplicit false

namespace CppMeet.Sfu.Room

open CppMeet.Lib.BigEndian CppMeet.Lib.Buffer CppMeet.Lib.Enrollment CppMeet.Lib.HashMap
open CppMeet.Lib.Run

/-- A peer id, an `int`. -/
abbrev PeerId := Int32

/-- The length of the fixed RTP header, `kRtpMinLen`. -/
def rtpMinLen : ℕ := 12

/-- One call of `send_fn_`. -/
structure Send where
  peerId : PeerId
  data : List UInt8
  deriving DecidableEq

/-- The outgoing source of each peer, the peers in the order they joined, and the next source. -/
structure SfuRoom where
  peerSsrcMap : UnorderedMap PeerId UInt32 := ∅
  peers : List PeerId := []
  nextSsrc : UInt32 := 0x10000000

/-- The bytes 8 to 11 become the SSRC. -/
def rewriteSsrc (data : List UInt8) (outSsrc : UInt32) : List UInt8 :=
  (((data.set 8 ((outSsrc >>> 24) &&& 0xFF).toUInt8).set 9 ((outSsrc >>> 16) &&& 0xFF).toUInt8).set
    10 ((outSsrc >>> 8) &&& 0xFF).toUInt8).set 11 (outSsrc &&& 0xFF).toUInt8

namespace SfuRoom

variable (room : SfuRoom)

/-- A peer that is new gets the next source. -/
def addPeer (peerId : PeerId) : SfuRoom :=
  match room.peerSsrcMap.lookup peerId with
  -- joining again keeps the SSRC
  | some _ => room
  | none =>
      { peerSsrcMap := room.peerSsrcMap.insert peerId room.nextSsrc
        peers := room.peers ++ [peerId]
        nextSsrc := room.nextSsrc + 1 }

/-- The peer and its source are removed; the source is not given out again. -/
def removePeer (peerId : PeerId) : SfuRoom :=
  { room with
    peerSsrcMap := room.peerSsrcMap.erase peerId
    peers := room.peers.filter fun peer => peer ≠ peerId }

/-- The loop over `peers_` of both routing functions. -/
def sendToOthers (fromPeerId : PeerId) (data : List UInt8) : List Send :=
  (room.peers.filter fun peer => peer ≠ fromPeerId).map fun peer => ⟨peer, data⟩

/-- A packet goes to everybody else, under the outgoing source of the sender. -/
def routeRtp (fromPeerId : PeerId) (rtpData : List UInt8) : List Send :=
  if rtpData.length < rtpMinLen then []
  else
    match room.peerSsrcMap.lookup fromPeerId with
    | none => []
    | some outSsrc => room.sendToOthers fromPeerId (rewriteSsrc rtpData outSsrc)

/-- The sender is not looked up. -/
def routeRtcp (fromPeerId : PeerId) (rtcpData : List UInt8) : List Send :=
  if rtcpData.length < 4 then [] else room.sendToOthers fromPeerId rtcpData

end SfuRoom

/-- The calls on a room. -/
inductive Call where
  | addPeer (peerId : PeerId)
  | removePeer (peerId : PeerId)
  | routeRtp (fromPeerId : PeerId) (rtpData : List UInt8)
  | routeRtcp (fromPeerId : PeerId) (rtcpData : List UInt8)

/-- A room, and beside it the registrations that the calls have made. -/
structure Session where
  room : SfuRoom
  registry : Registry PeerId

namespace Session

/-- A new room. -/
def start : Session := ⟨{}, .empty⟩

/-- A call on the room, and what it means for the registrations. -/
def step (s : Session) : Call → Session
  | .addPeer peerId => ⟨s.room.addPeer peerId, s.registry.join peerId⟩
  | .removePeer peerId => ⟨s.room.removePeer peerId, s.registry.leave peerId⟩
  | .routeRtp _ _ => s
  | .routeRtcp _ _ => s

/-- What a call sends. -/
def sends (s : Session) : Call → List Send
  | .addPeer _ => []
  | .removePeer _ => []
  | .routeRtp fromPeerId rtpData => s.room.routeRtp fromPeerId rtpData
  | .routeRtcp fromPeerId rtcpData => s.room.routeRtcp fromPeerId rtcpData

/-- The session after the calls. -/
def after (calls : List Call) : Session := run step start calls

end Session

/-! ## Rewriting the SSRC -/

/-- Four bytes in the middle of a list are replaced. -/
theorem set_four (pre rest : List UInt8) (a b c d a' b' c' d' : UInt8) :
    ((((pre ++ (a :: b :: c :: d :: rest)).set pre.length a').set (pre.length + 1) b').set
      (pre.length + 2) c').set (pre.length + 3) d' = pre ++ (a' :: b' :: c' :: d' :: rest) := by
  simp

/-- Nothing but the four bytes of the SSRC changes. -/
theorem rewriteSsrc_eq {data : List UInt8} (hlen : 12 ≤ data.length) (outSsrc : UInt32) :
    rewriteSsrc data outSsrc = data.take 8 ++ (put32 outSsrc ++ data.drop 12) := by
  obtain ⟨ssrc, rest, hrest⟩ := exists_put32 (data.drop 8) (by rw [List.length_drop]; omega)
  have hpre : (data.take 8).length = 8 := by rw [List.length_take]; omega
  have hdata : data.take 8 ++ (put32 ssrc ++ rest) = data := by
    rw [← hrest, List.take_append_drop]
  have hdrop : data.drop 12 = rest := by
    rw [show 12 = 8 + 4 from rfl, ← List.drop_drop, hrest]
    exact List.drop_left' rfl
  have hset := set_four (data.take 8) rest ((ssrc >>> 24) &&& 0xFF).toUInt8
    ((ssrc >>> 16) &&& 0xFF).toUInt8 ((ssrc >>> 8) &&& 0xFF).toUInt8 (ssrc &&& 0xFF).toUInt8
    ((outSsrc >>> 24) &&& 0xFF).toUInt8 ((outSsrc >>> 16) &&& 0xFF).toUInt8
    ((outSsrc >>> 8) &&& 0xFF).toUInt8 (outSsrc &&& 0xFF).toUInt8
  rw [hpre] at hset
  rw [hdrop]
  conv_lhs => rw [← hdata]
  exact hset

/-- The SSRC of a rewritten packet. -/
theorem readU32_rewriteSsrc {data : List UInt8} (hlen : 12 ≤ data.length) (outSsrc : UInt32) :
    readU32 (rewriteSsrc data outSsrc) 8 = some outSsrc := by
  have hpre : (data.take 8).length = 8 := by rw [List.length_take]; omega
  have hread := readU32_put32 (data.take 8) (data.drop 12) outSsrc
  rwa [hpre, ← rewriteSsrc_eq hlen] at hread

/-! ## What the calls send -/

namespace SfuRoom

variable {room : SfuRoom} {fromPeerId : PeerId} {data : List UInt8} {send : Send}

/-- Everybody in the room but the sender gets the data. -/
theorem mem_sendToOthers :
    send ∈ room.sendToOthers fromPeerId data ↔
      send.peerId ∈ room.peers ∧ send.peerId ≠ fromPeerId ∧ send.data = data := by
  simp only [sendToOthers, List.mem_map, List.mem_filter, decide_eq_true_iff]
  constructor
  · rintro ⟨peer, ⟨hmem, hne⟩, rfl⟩
    exact ⟨hmem, hne, rfl⟩
  · rintro ⟨hmem, hne, rfl⟩
    exact ⟨send.peerId, ⟨hmem, hne⟩, rfl⟩

/-- Every other peer is sent to once. -/
theorem count_sendToOthers (hnodup : room.peers.Nodup) (peer : PeerId) :
    ((room.sendToOthers fromPeerId data).map Send.peerId).count peer =
      if peer ∈ room.peers ∧ peer ≠ fromPeerId then 1 else 0 := by
  have hmap : (room.sendToOthers fromPeerId data).map Send.peerId =
      room.peers.filter fun peer => peer ≠ fromPeerId := by
    rw [sendToOthers, List.map_map]
    exact List.map_id _
  have hmem : peer ∈ room.peers.filter (fun peer => peer ≠ fromPeerId) ↔
      peer ∈ room.peers ∧ peer ≠ fromPeerId := by
    rw [List.mem_filter, decide_eq_true_iff]
  rw [hmap, (hnodup.filter _).count]
  exact if_congr hmem rfl rfl

/-- A packet that is too short goes to nobody. -/
theorem routeRtp_of_short (h : data.length < 12) : room.routeRtp fromPeerId data = [] := by
  rw [routeRtp, rtpMinLen, if_pos h]

/-- A packet of a peer without a source goes to nobody. -/
theorem routeRtp_of_unregistered (h : room.peerSsrcMap.lookup fromPeerId = none) :
    room.routeRtp fromPeerId data = [] := by
  rw [routeRtp, h]
  split_ifs <;> rfl

/-- A packet of a registered peer goes to the others under its outgoing source. -/
theorem routeRtp_of_registered (hlen : 12 ≤ data.length) {outSsrc : UInt32}
    (h : room.peerSsrcMap.lookup fromPeerId = some outSsrc) :
    room.routeRtp fromPeerId data =
      room.sendToOthers fromPeerId (rewriteSsrc data outSsrc) := by
  rw [routeRtp, rtpMinLen, if_neg (Nat.not_lt.2 hlen), h]

/-- What is forwarded comes from a registered peer and carries its SSRC. -/
theorem exists_of_mem_routeRtp (h : send ∈ room.routeRtp fromPeerId data) :
    ∃ outSsrc, 12 ≤ data.length ∧ room.peerSsrcMap.lookup fromPeerId = some outSsrc ∧
      send.peerId ∈ room.peers ∧ send.peerId ≠ fromPeerId ∧
      send.data = rewriteSsrc data outSsrc := by
  rcases Nat.lt_or_ge data.length 12 with hshort | hlen
  · rw [routeRtp_of_short hshort] at h
    cases h
  · cases hlookup : room.peerSsrcMap.lookup fromPeerId with
    | none =>
        rw [routeRtp_of_unregistered hlookup] at h
        cases h
    | some outSsrc =>
        rw [routeRtp_of_registered hlen hlookup] at h
        exact ⟨outSsrc, hlen, rfl, mem_sendToOthers.1 h⟩

end SfuRoom

/-! ## The room follows the registrations -/

/-- The SSRC of registration `i`. -/
def ssrcOf (i : ℕ) : UInt32 := 0x10000000 + UInt32.ofNat i

theorem ssrcOf_succ (i : ℕ) : ssrcOf (i + 1) = ssrcOf i + 1 := by
  rw [ssrcOf, ssrcOf, UInt32.ofNat_add, UInt32.add_assoc]
  rfl

/-- Before the counter comes round, the SSRC tells the registration. -/
theorem ssrcOf_inj {i j : ℕ} (hi : i < 2 ^ 32) (hj : j < 2 ^ 32) (h : ssrcOf i = ssrcOf j) :
    i = j := by
  have hsame : UInt32.ofNat i = UInt32.ofNat j := by
    rw [ssrcOf, ssrcOf, UInt32.add_comm, UInt32.add_comm 0x10000000] at h
    rw [← UInt32.add_sub_cancel (UInt32.ofNat i) 0x10000000, h, UInt32.add_sub_cancel]
  rw [← UInt32.toNat_inj, UInt32.toNat_ofNat', UInt32.toNat_ofNat', Nat.mod_eq_of_lt hi,
    Nat.mod_eq_of_lt hj] at hsame
  exact hsame

/-- The room keeps exactly what the registrations say. -/
structure Follows (s : Session) : Prop where
  nodup : s.room.peers.Nodup
  mem_peers : ∀ peer, peer ∈ s.room.peers ↔ s.registry.Registered peer
  ssrc : ∀ peer, s.room.peerSsrcMap.lookup peer = (s.registry.holds peer).map ssrcOf
  nextSsrc : s.room.nextSsrc = ssrcOf s.registry.registrations.length

theorem follows_start : Follows .start where
  nodup := List.nodup_nil
  mem_peers _ := iff_of_false List.not_mem_nil Bool.false_ne_true
  ssrc _ := rfl
  nextSsrc := rfl

namespace Follows

variable {s : Session}

/-- A peer that is not registered has no source. -/
theorem lookup_eq_none (h : Follows s) {peer : PeerId} (hnot : ¬ s.registry.Registered peer) :
    s.room.peerSsrcMap.lookup peer = none := by
  rw [h.ssrc, Option.not_isSome_iff_eq_none.1 hnot]
  rfl

/-- A registered peer has the source of its registration. -/
theorem lookup_eq_some (h : Follows s) {peer : PeerId} {i : ℕ}
    (hi : s.registry.holds peer = some i) :
    s.room.peerSsrcMap.lookup peer = some (ssrcOf i) := by
  rw [h.ssrc, hi]
  rfl

theorem addPeer (h : Follows s) (peerId : PeerId) : Follows (s.step (.addPeer peerId)) := by
  by_cases hreg : s.registry.Registered peerId
  · -- joining a second time changes nothing on either side
    obtain ⟨i, hi⟩ := Option.isSome_iff_exists.1 hreg
    have hroom : s.room.addPeer peerId = s.room := by
      rw [SfuRoom.addPeer, h.lookup_eq_some hi]
    rw [Session.step, hroom, Registry.join_of_registered hreg]
    exact h
  · have hroom : s.room.addPeer peerId =
        { peerSsrcMap := s.room.peerSsrcMap.insert peerId s.room.nextSsrc
          peers := s.room.peers ++ [peerId]
          nextSsrc := s.room.nextSsrc + 1 } := by
      rw [SfuRoom.addPeer, h.lookup_eq_none hreg]
    rw [Session.step, hroom, Registry.join_of_not_registered hreg]
    refine ⟨?_, fun peer => ?_, fun peer => ?_, ?_⟩
    · apply h.nodup.append (List.nodup_singleton peerId)
      rw [List.disjoint_singleton, h.mem_peers]
      exact hreg
    · rw [Registry.registered_enroll, List.mem_append, List.mem_singleton, h.mem_peers]
    · rw [Registry.holds_enroll, lookup_insert_ite, h.ssrc, h.nextSsrc]
      split_ifs
      · rfl
      · rfl
    · rw [h.nextSsrc, ← ssrcOf_succ]
      dsimp only [Registry.enroll]
      rw [List.length_append, List.length_singleton]

theorem removePeer (h : Follows s) (peerId : PeerId) :
    Follows (s.step (.removePeer peerId)) where
  nodup := h.nodup.filter _
  mem_peers := by
    intro peer
    dsimp only [Session.step, SfuRoom.removePeer]
    rw [Registry.registered_leave, List.mem_filter, decide_eq_true_iff, h.mem_peers]
  ssrc := by
    intro peer
    dsimp only [Session.step, SfuRoom.removePeer]
    rw [Registry.holds_leave, lookup_erase_ite, h.ssrc]
    split_ifs
    · rfl
    · rfl
  nextSsrc := h.nextSsrc

/-- Every call keeps the room in step with the registrations. -/
theorem step (h : Follows s) (call : Call) : Follows (s.step call) := by
  cases call with
  | addPeer peerId => exact h.addPeer peerId
  | removePeer peerId => exact h.removePeer peerId
  | routeRtp fromPeerId rtpData => exact h
  | routeRtcp fromPeerId rtcpData => exact h

end Follows

/-- The room follows the registrations in every run. -/
theorem follows_after (calls : List Call) : Follows (.after calls) := by
  refine inv_run (P := fun _ _ => True) (I := Follows) ?_ follows_start
    (along_of_forall (fun _ _ => trivial) _ _)
  exact fun s call h _ => h.step call

/-- The registrations of the first calls are the first registrations. -/
theorem registrations_mono {pre calls : List Call} (h : pre <+: calls) :
    (Session.after pre).registry.registrations <+:
      (Session.after calls).registry.registrations := by
  obtain ⟨more, rfl⟩ := h
  rw [Session.after, Session.after, run_append]
  generalize run Session.step Session.start pre = s
  induction more generalizing s with
  | nil => exact List.prefix_refl _
  | cons call more ih =>
      refine List.IsPrefix.trans ?_ (ih (s.step call))
      cases call with
      | addPeer peerId => exact Registry.le_join peerId
      | removePeer peerId => exact List.prefix_refl _
      | routeRtp fromPeerId rtpData => exact List.prefix_refl _
      | routeRtcp fromPeerId rtcpData => exact List.prefix_refl _

end CppMeet.Sfu.Room
