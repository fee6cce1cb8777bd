import CppMeet.Sfu.Room

/-!
# What a subscriber hears

The packets of all publishers reach a subscriber in one stream, which it splits by the SSRC. In a
run in which no SSRC is given out twice, the packets with the SSRC of one registration are the
packets that the room was given from that publisher while it held the registration and the
subscriber was registered, in order, each once, with the SSRC as the only change
(`subscriber_stream`).
-/

set_option autoImplicit false

namespace CppMeet.Sfu.Subscriber

open CppMeet.Lib.Buffer CppMeet.Lib.Enrollment CppMeet.Lib.Run CppMeet.Sfu.Room

/-- What a call of `route_rtp` sends to the peer. -/
def rtpTo (peer : PeerId) (s : Session) : Call → List (List UInt8)
  | .routeRtp fromPeerId rtpData =>
      ((s.room.routeRtp fromPeerId rtpData).filter fun send => send.peerId = peer).map Send.data
  | _ => []

/-- The packets of registration `i` that the room gets while `peer` is there to hear them. -/
def published (i : ℕ) (peer : PeerId) (s : Session) : Call → List (List UInt8)
  | .routeRtp fromPeerId rtpData =>
      if s.registry.holds fromPeerId = some i ∧ s.registry.Registered peer ∧ peer ≠ fromPeerId ∧
          12 ≤ rtpData.length then [rtpData]
      else []
  | _ => []

/-- The subscriber takes the packet for one of the stream. -/
def hasSsrc (ssrc : UInt32) (data : List UInt8) : Bool := readU32 data 8 = some ssrc

theorem filter_eq_singleton {l : List PeerId} (hnodup : l.Nodup) (peer : PeerId) :
    (l.filter fun p => p = peer) = if peer ∈ l then [peer] else [] := by
  have hreplicate : (l.filter fun p => p = peer) = List.replicate (l.count peer) peer := by
    rw [← List.filter_beq]
    rfl
  rw [hreplicate, hnodup.count]
  split_ifs
  · rfl
  · rfl

/-- A loop over the other peers sends one copy to a peer that is among them. -/
theorem sendToOthers_to {room : SfuRoom} (hnodup : room.peers.Nodup) (fromPeerId peer : PeerId)
    (data : List UInt8) :
    ((room.sendToOthers fromPeerId data).filter fun send => send.peerId = peer).map Send.data =
      if peer ∈ room.peers ∧ peer ≠ fromPeerId then [data] else [] := by
  have hmem : peer ∈ room.peers.filter (fun p => p ≠ fromPeerId) ↔
      peer ∈ room.peers ∧ peer ≠ fromPeerId := by
    rw [List.mem_filter, decide_eq_true_iff]
  rw [SfuRoom.sendToOthers, List.filter_map, List.map_map]
  have hfilter := filter_eq_singleton (hnodup.filter fun p => p ≠ fromPeerId) peer
  simp only [Function.comp_def]
  rw [hfilter, if_congr hmem rfl rfl]
  split_ifs
  · rfl
  · rfl

variable {s : Session}

/-- One call, in a room whose registrations have different SSRCs. -/
theorem rtpTo_filter (h : Follows s) (hlen : s.registry.registrations.length ≤ 2 ^ 32) {i : ℕ}
    (hi : i < 2 ^ 32) (peer : PeerId) (call : Call) :
    (rtpTo peer s call).filter (hasSsrc (ssrcOf i)) =
      (published i peer s call).map fun data => rewriteSsrc data (ssrcOf i) := by
  cases call with
  | addPeer peerId => rfl
  | removePeer peerId => rfl
  | routeRtcp fromPeerId rtcpData => rfl
  | routeRtp fromPeerId rtpData =>
      rw [rtpTo, published]
      rcases Nat.lt_or_ge rtpData.length 12 with hshort | hlong
      · -- too short for `route_rtp`
        rw [SfuRoom.routeRtp_of_short hshort, if_neg fun hall => by omega]
        rfl
      · cases hholds : s.registry.holds fromPeerId with
        | none =>
            -- the sender has no registration, so the room forwards nothing
            have hlookup := h.ssrc fromPeerId
            rw [hholds] at hlookup
            rw [SfuRoom.routeRtp_of_unregistered hlookup, if_neg]
            · rfl
            · rintro ⟨hsome, -⟩
              cases hsome
        | some j =>
            have hj : j < 2 ^ 32 := (Registry.lt_of_holds hholds).trans_le hlen
            rw [SfuRoom.routeRtp_of_registered hlong (h.lookup_eq_some hholds),
              sendToOthers_to h.nodup]
            by_cases hto : peer ∈ s.room.peers ∧ peer ≠ fromPeerId
            · rw [if_pos hto]
              have hreg := (h.mem_peers peer).1 hto.1
              by_cases hij : j = i
              · -- the sender holds the registration, and its packet carries the SSRC
                subst hij
                rw [if_pos ⟨rfl, hreg, hto.2, hlong⟩, List.filter_cons_of_pos]
                · rfl
                · exact decide_eq_true (readU32_rewriteSsrc hlong (ssrcOf j))
              · -- another registration has another SSRC
                rw [if_neg fun hall => hij (Option.some.inj hall.1), List.filter_cons_of_neg]
                · rfl
                · rw [hasSsrc, decide_eq_true_iff, readU32_rewriteSsrc hlong]
                  exact fun hsame => hij (ssrcOf_inj hj hi (Option.some.inj hsame))
            · -- the sender itself, or somebody outside of the room
              rw [if_neg hto, if_neg]
              · rfl
              · rintro ⟨-, hreg, hne, -⟩
                exact hto ⟨(h.mem_peers peer).2 hreg, hne⟩

/-- No moment of a run has more registrations than its end. -/
theorem along_registrations_le {n : ℕ} {calls : List Call}
    (hlen : (Session.after calls).registry.registrations.length ≤ n) :
    Along Session.step (fun s _ => s.registry.registrations.length ≤ n) .start calls := by
  rw [along_iff_split]
  rintro pre call post rfl
  exact (registrations_mono (List.prefix_append pre _)).length_le.trans hlen

/-- The packets with the SSRC of registration `i` that a subscriber gets in a run. -/
theorem rtpTo_eq_published {calls : List Call}
    (hlen : (Session.after calls).registry.registrations.length ≤ 2 ^ 32) {i : ℕ} (hi : i < 2 ^ 32)
    (peer : PeerId) :
    (trace Session.step (rtpTo peer) .start calls).filter (hasSsrc (ssrcOf i)) =
      (trace Session.step (published i peer) .start calls).map fun data =>
        rewriteSsrc data (ssrcOf i) := by
  rw [filter_trace, map_trace]
  apply trace_congr (I := Follows) (P := fun s _ => s.registry.registrations.length ≤ 2 ^ 32)
  · exact fun s call h _ => h.step call
  · exact fun s call h hle => rtpTo_filter h hle hi peer call
  · exact follows_start
  · exact along_registrations_le hlen

/-- A packet that is sent to a subscriber has the SSRC of a registration. -/
theorem exists_hasSsrc (h : Follows s) {peer : PeerId} {call : Call} {data : List UInt8}
    (hdata : data ∈ rtpTo peer s call) :
    ∃ i < s.registry.registrations.length, hasSsrc (ssrcOf i) data = true := by
  cases call with
  | addPeer peerId => cases hdata
  | removePeer peerId => cases hdata
  | routeRtcp fromPeerId rtcpData => cases hdata
  | routeRtp fromPeerId rtpData =>
      obtain ⟨send, hsend, rfl⟩ := List.mem_map.1 hdata
      obtain ⟨outSsrc, hlong, hlookup, -, -, hrewritten⟩ :=
        SfuRoom.exists_of_mem_routeRtp (List.mem_filter.1 hsend).1
      rw [h.ssrc] at hlookup
      obtain ⟨i, hi, rfl⟩ := Option.map_eq_some_iff.1 hlookup
      refine ⟨i, Registry.lt_of_holds hi, ?_⟩
      rw [hasSsrc, hrewritten, readU32_rewriteSsrc hlong]
      exact decide_eq_true rfl

/-- In every run with at most 2^32 registrations, every RTP packet sent to a subscriber belongs to
the stream of a registration, and the stream of each registration is what its publisher gave to the
room, in order, with another SSRC. -/
theorem subscriber_stream (calls : List Call)
    (hlen : (Session.after calls).registry.registrations.length ≤ 2 ^ 32) (peer : PeerId) :
    (∀ data ∈ trace Session.step (rtpTo peer) .start calls,
      ∃ i < (Session.after calls).registry.registrations.length,
        hasSsrc (ssrcOf i) data = true) ∧
    ∀ i < 2 ^ 32, (trace Session.step (rtpTo peer) .start calls).filter (hasSsrc (ssrcOf i)) =
      (trace Session.step (published i peer) .start calls).map fun data =>
        rewriteSsrc data (ssrcOf i) := by
  constructor
  · refine forall_mem_trace (I := Follows) (P := fun s _ => s.registry.registrations.length ≤
      (Session.after calls).registry.registrations.length) (fun s call h _ => h.step call) ?_
      follows_start (along_registrations_le le_rfl)
    intro s call h hle data hdata
    obtain ⟨i, hi, hssrc⟩ := exists_hasSsrc h hdata
    exact ⟨i, hi.trans_le hle, hssrc⟩
  · exact fun i hi => rtpTo_eq_published hlen hi peer

/-- Two publishers and a subscriber that joins after the first packet. -/
theorem subscriber_stream_two :
    let packet (n : UInt8) : List UInt8 := [0x80, 96, 0, n, 0, 0, 0, 0, 1, 2, 3, 4, n]
    let calls : List Call := [.addPeer 1, .addPeer 2, .routeRtp 1 (packet 1), .addPeer 3,
      .routeRtp 2 (packet 2), .routeRtp 1 (packet 3)]
    (∀ data ∈ trace Session.step (rtpTo 3) .start calls,
      ∃ i < (Session.after calls).registry.registrations.length,
        hasSsrc (ssrcOf i) data = true) ∧
    ∀ i < 2 ^ 32, (trace Session.step (rtpTo 3) .start calls).filter (hasSsrc (ssrcOf i)) =
      (trace Session.step (published i 3) .start calls).map fun data =>
        rewriteSsrc data (ssrcOf i) := by
  intro packet calls
  exact subscriber_stream calls (by decide) 3

end CppMeet.Sfu.Subscriber
