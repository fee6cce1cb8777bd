import CppMeet.Rtp.Rtcp
import CppMeet.Sfu.Room

/-!
# What RTCP forwarding leaves out

`routeRtp` and `routeRtcp` share the loop over the other peers, but not what comes before it.

`routeRtcp` rewrites nothing, so a sender report arrives with the SSRC that its sender has given
itself, while the packets of the stream arrive with the one that the room has assigned. The two
agree only by coincidence (`same_ssrc_iff`). Nor does it look its sender up, so it also forwards
what arrives under the id of a peer that has left (`gated_along_iff`).
-/

set_option autoImplicit false

namespace CppMeet.Sfu.RtcpPath

open CppMeet.Lib.Buffer CppMeet.Lib.Enrollment CppMeet.Lib.Run CppMeet.Rtp.Rtcp CppMeet.Sfu.Room

/-! ## The SSRC of a report -/

/-- Whoever receives both the RTP packet and the report receives them with one SSRC. -/
def SameSsrc (room : SfuRoom) (publisher : PeerId) (rtpData : List UInt8) (sr : RtcpSR) : Prop :=
  ∀ send ∈ room.routeRtp publisher rtpData, ∀ send' ∈ room.routeRtcp publisher sr.serialize,
    send.peerId = send'.peerId → readU32 send'.data 4 = readU32 send.data 8

/-- A report goes to everybody else as it is. -/
theorem routeRtcp_eq {room : SfuRoom} {fromPeerId : PeerId} {rtcpData : List UInt8}
    (hlen : 4 ≤ rtcpData.length) :
    room.routeRtcp fromPeerId rtcpData = room.sendToOthers fromPeerId rtcpData := by
  rw [SfuRoom.routeRtcp, if_neg (Nat.not_lt.2 hlen)]

/-- For a packet and a report of one stream: the report is forwarded with the SSRC of the packet
exactly if the room has given the publisher the SSRC that the stream had anyway, or there is no
other peer. -/
theorem same_ssrc_iff (calls : List Call) (publisher : PeerId)
    (hpublisher : (Session.after calls).registry.Registered publisher) (rtpData : List UInt8)
    (sr : RtcpSR) (hssrc : readU32 rtpData 8 = some sr.ssrc) :
    SameSsrc (Session.after calls).room publisher rtpData sr ↔
      (Session.after calls).room.peerSsrcMap.lookup publisher = some sr.ssrc ∨
        ∀ peer, (Session.after calls).registry.Registered peer → peer = publisher := by
  have hfollows := follows_after calls
  have hlen : 12 ≤ rtpData.length := le_of_readU32 hssrc
  have hreport : 4 ≤ sr.serialize.length := by
    rw [sr.serialize_length]
    decide
  obtain ⟨i, hi⟩ := Option.isSome_iff_exists.1 hpublisher
  have hout := hfollows.lookup_eq_some hi
  rw [SameSsrc, SfuRoom.routeRtp_of_registered hlen hout, routeRtcp_eq hreport, hout]
  constructor
  · intro hsame
    by_cases hother : ∀ peer, (Session.after calls).registry.Registered peer → peer = publisher
    · exact Or.inr hother
    · -- this peer gets the packet under the outgoing SSRC and the report as it was sent
      push Not at hother
      obtain ⟨peer, hpeer, hne⟩ := hother
      have hmem := (hfollows.mem_peers peer).2 hpeer
      have h := hsame ⟨peer, rewriteSsrc rtpData (ssrcOf i)⟩
        (SfuRoom.mem_sendToOthers.2 ⟨hmem, hne, rfl⟩) ⟨peer, sr.serialize⟩
        (SfuRoom.mem_sendToOthers.2 ⟨hmem, hne, rfl⟩) rfl
      rw [readU32_rewriteSsrc hlen, sr.readU32_serialize] at h
      exact Or.inl h.symm
  · -- every send of the two calls goes to such a peer, or there is none
    intro h send hsend send' hsend' _
    obtain ⟨hmem, hne, hdata⟩ := SfuRoom.mem_sendToOthers.1 hsend
    obtain ⟨-, -, hdata'⟩ := SfuRoom.mem_sendToOthers.1 hsend'
    rcases h with hout' | hother
    · rw [hdata, hdata', readU32_rewriteSsrc hlen, sr.readU32_serialize, hout']
    · exact absurd (hother _ ((hfollows.mem_peers _).1 hmem)) hne

/-- Two peers, and a report of the first one with the SSRC `x`. -/
def twoPeers : List Call := [.addPeer 1, .addPeer 2]

/-- A sender report of the source `x` that has sent nothing. -/
def reportOf (x : UInt32) : RtcpSR := ⟨x, 0, 0, 0, 0, 0⟩

/-- A fixed header with the SSRC `x`. -/
def packetOf (x : UInt32) : List UInt8 :=
  List.replicate 8 0 ++ CppMeet.Lib.BigEndian.put32 x

/-- A publisher whose own source is the assigned one. -/
theorem same_ssrc_iff_assigned :
    SameSsrc (Session.after twoPeers).room 1 (packetOf 0x10000000) (reportOf 0x10000000) :=
  (same_ssrc_iff twoPeers 1 (by decide) (packetOf 0x10000000) (reportOf 0x10000000)
    (by decide)).2 (Or.inl (by decide))

/-- In a room of two a report arrives under another source than the media. -/
theorem not_same_ssrc_twoPeers :
    ¬∀ (calls : List Call) (publisher : PeerId),
      (Session.after calls).registry.Registered publisher → ∀ (rtpData : List UInt8) (sr : RtcpSR),
        readU32 rtpData 8 = some sr.ssrc →
          SameSsrc (Session.after calls).room publisher rtpData sr := by
  intro h
  have hsame := h twoPeers 1 (by decide) (packetOf 7) (reportOf 7) (by decide)
  have hfalse := hsame ⟨2, packetOf 0x10000000⟩ (by decide) ⟨2, (reportOf 7).serialize⟩
    (by decide) rfl
  exact absurd hfalse (by decide)

/-! ## The sender of a packet -/

/-- The peer id under which a packet is handed to the room. -/
def origin : Call → Option PeerId
  | .addPeer _ => none
  | .removePeer _ => none
  | .routeRtp fromPeerId _ => some fromPeerId
  | .routeRtcp fromPeerId _ => some fromPeerId

/-- What a call sends goes from a registered peer to a registered peer. -/
def Gated (s : Session) (call : Call) : Prop :=
  ∀ send ∈ s.sends call, (∃ peer, origin call = some peer ∧ s.registry.Registered peer) ∧
    s.registry.Registered send.peerId

/-- RTCP packets of four bytes or more come from registered peers, or find nobody in the room. -/
def FromMembers (s : Session) : Call → Prop
  | .routeRtcp fromPeerId rtcpData =>
      4 ≤ rtcpData.length → s.registry.Registered fromPeerId ∨ ∀ peer, ¬ s.registry.Registered peer
  | _ => True

/-- RTCP is gated exactly when it comes from members. -/
theorem gated_iff {s : Session} (h : Follows s) (call : Call) :
    Gated s call ↔ FromMembers s call := by
  cases call with
  | addPeer peerId => exact iff_of_true (fun send hsend => absurd hsend List.not_mem_nil) trivial
  | removePeer peerId =>
      exact iff_of_true (fun send hsend => absurd hsend List.not_mem_nil) trivial
  | routeRtp fromPeerId rtpData =>
      refine iff_of_true (fun send hsend => ?_) trivial
      obtain ⟨outSsrc, -, hlookup, hmem, -⟩ := SfuRoom.exists_of_mem_routeRtp hsend
      rw [h.ssrc] at hlookup
      obtain ⟨i, hi, -⟩ := Option.map_eq_some_iff.1 hlookup
      exact ⟨⟨fromPeerId, rfl, Option.isSome_iff_exists.2 ⟨i, hi⟩⟩, (h.mem_peers _).1 hmem⟩
  | routeRtcp fromPeerId rtcpData =>
      constructor
      · intro hgated hlen
        by_cases hfrom : s.registry.Registered fromPeerId
        · exact Or.inl hfrom
        · -- a registered peer would receive the packet
          refine Or.inr fun peer hpeer => hfrom ?_
          have hne : peer ≠ fromPeerId := by
            rintro rfl
            exact hfrom hpeer
          have hmem : ⟨peer, rtcpData⟩ ∈ s.sends (.routeRtcp fromPeerId rtcpData) := by
            rw [Session.sends, routeRtcp_eq hlen]
            exact SfuRoom.mem_sendToOthers.2 ⟨(h.mem_peers peer).2 hpeer, hne, rfl⟩
          obtain ⟨⟨sender, hsender, hreg⟩, -⟩ := hgated _ hmem
          obtain rfl := Option.some.inj hsender
          exact hreg
      · intro hfrom send hsend
        rcases Nat.lt_or_ge rtcpData.length 4 with hshort | hlen
        · rw [Session.sends, SfuRoom.routeRtcp, if_pos hshort] at hsend
          cases hsend
        · rw [Session.sends, routeRtcp_eq hlen] at hsend
          have hdest := (h.mem_peers _).1 (SfuRoom.mem_sendToOthers.1 hsend).1
          rcases hfrom hlen with hreg | hnobody
          · exact ⟨⟨fromPeerId, rfl, hreg⟩, hdest⟩
          · exact absurd hdest (hnobody _)

/-- In a run, everything that is sent goes from registered peers to registered peers exactly if the
RTCP packets do. -/
theorem gated_along_iff (calls : List Call) :
    Along Session.step Gated .start calls ↔ Along Session.step FromMembers .start calls :=
  along_congr (I := Follows) (fun _ call h _ => h.step call) (fun _ call h => gated_iff h call)
    follows_start calls

/-- A sender report under the id of a peer that has left. -/
def departed : List Call :=
  [.addPeer 1, .addPeer 2, .removePeer 1, .routeRtcp 1 (reportOf 7).serialize]

theorem not_gated_departed : ¬∀ calls, Along Session.step Gated .start calls := by
  intro h
  have hgated := (h departed).2.2.2.1 ⟨2, (reportOf 7).serialize⟩ (by decide)
  obtain ⟨⟨peer, hpeer, hreg⟩, -⟩ := hgated
  obtain rfl := Option.some.inj hpeer
  revert hreg
  decide

end CppMeet.Sfu.RtcpPath
