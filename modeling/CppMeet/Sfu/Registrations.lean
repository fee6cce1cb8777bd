import CppMeet.Sfu.Room

/-!
# Membership and SSRCs over whole runs

In every state of a run the room knows exactly the registered peers, and an RTP packet of one of
them goes to each of the others once, with the SSRC of the registration that the sender holds. As
long as the counter has not come round, that SSRC belongs to no other registration of the run, also
not to one of a peer that has left in between.
-/

set_option autoImplicit false

namespace CppMeet.Sfu.Registrations

open CppMeet.Lib.BigEndian CppMeet.Lib.Buffer CppMeet.Lib.Enrollment CppMeet.Lib.HashMap
open CppMeet.Sfu.Room

/-- The registration that a peer holds after the calls. -/
def registrationAt (calls : List Call) (peerId : PeerId) : Option ℕ :=
  (Session.after calls).registry.holds peerId

/-- The SSRC that the room has for a peer after the calls. -/
def outSsrcAt (calls : List Call) (peerId : PeerId) : Option UInt32 :=
  (Session.after calls).room.peerSsrcMap.lookup peerId

/-- The calls have registered a peer and not removed it since. -/
def RegisteredAt (calls : List Call) (peerId : PeerId) : Prop :=
  (Session.after calls).registry.Registered peerId

instance (calls : List Call) (peerId : PeerId) : Decidable (RegisteredAt calls peerId) :=
  inferInstanceAs (Decidable (Registry.Registered _ _))

/-- What `route_rtp` sends after the calls. -/
def rtpAt (calls : List Call) (fromPeerId : PeerId) (rtpData : List UInt8) : List Send :=
  (Session.after calls).room.routeRtp fromPeerId rtpData

/-- A peer is registered when it is in `peers_`, once, and also when it is a key of
`peer_ssrc_map_`. -/
structure Listed (calls : List Call) : Prop where
  once : ∀ peer, RegisteredAt calls peer → (Session.after calls).room.peers.count peer = 1
  only : ∀ peer, peer ∈ (Session.after calls).room.peers → RegisteredAt calls peer
  keys : ∀ peer, peer ∈ (Session.after calls).room.peerSsrcMap ↔
    peer ∈ (Session.after calls).room.peers

/-- A packet with a whole fixed header that comes from a registered peer goes to each of the others
once, and only the SSRC in it is replaced. No other packet goes anywhere. -/
structure Routes (calls : List Call) (fromPeerId : PeerId) (rtpData : List UInt8) : Prop where
  recipients : 12 ≤ rtpData.length → RegisteredAt calls fromPeerId → ∀ peer,
    ((rtpAt calls fromPeerId rtpData).map Send.peerId).count peer =
      if RegisteredAt calls peer ∧ peer ≠ fromPeerId then 1 else 0
  contents : ∀ send ∈ rtpAt calls fromPeerId rtpData, ∃ outSsrc,
    outSsrcAt calls fromPeerId = some outSsrc ∧
      send.data = rtpData.take 8 ++ (put32 outSsrc ++ rtpData.drop 12)
  short : rtpData.length < 12 → rtpAt calls fromPeerId rtpData = []
  unregistered : ¬ RegisteredAt calls fromPeerId → rtpAt calls fromPeerId rtpData = []

/-- The list of peers is the registrations that are held. -/
theorem listed (calls : List Call) : Listed calls := by
  have h := follows_after calls
  refine ⟨fun peer hpeer => ?_, fun peer hpeer => (h.mem_peers peer).1 hpeer, fun peer => ?_⟩
  · exact List.count_eq_one_of_mem h.nodup ((h.mem_peers peer).2 hpeer)
  · rw [h.mem_peers, ← Finmap.lookup_isSome, h.ssrc, Option.isSome_map]
    exact Iff.rfl

/-- A packet goes to the others of the list. -/
theorem routes (calls : List Call) (fromPeerId : PeerId) (rtpData : List UInt8) :
    Routes calls fromPeerId rtpData := by
  have h := follows_after calls
  refine ⟨fun hlen hfrom peer => ?_, fun send hsend => ?_, SfuRoom.routeRtp_of_short,
    fun hnot => SfuRoom.routeRtp_of_unregistered (h.lookup_eq_none hnot)⟩
  · obtain ⟨i, hi⟩ := Option.isSome_iff_exists.1 hfrom
    rw [rtpAt, SfuRoom.routeRtp_of_registered hlen (h.lookup_eq_some hi),
      SfuRoom.count_sendToOthers h.nodup]
    exact if_congr (and_congr_left' (h.mem_peers peer)) rfl rfl
  · obtain ⟨outSsrc, hlen, hlookup, -, -, hdata⟩ := SfuRoom.exists_of_mem_routeRtp hsend
    exact ⟨outSsrc, hlookup, hdata.trans (rewriteSsrc_eq hlen outSsrc)⟩

/-- A registered peer has the SSRC of the registration that it holds. -/
theorem exists_registration {calls : List Call} {peer : PeerId} {outSsrc : UInt32}
    (h : outSsrcAt calls peer = some outSsrc) :
    ∃ i, registrationAt calls peer = some i ∧ ssrcOf i = outSsrc := by
  rw [outSsrcAt, (follows_after calls).ssrc] at h
  exact Option.map_eq_some_iff.1 h

/-- At any two moments of the run, one SSRC means one registration. -/
theorem registration_eq {calls : List Call}
    (hlen : (Session.after calls).registry.registrations.length < 2 ^ 32) {pre pre' : List Call}
    (hpre : pre <+: calls) (hpre' : pre' <+: calls) {peer peer' : PeerId} {outSsrc : UInt32}
    (h : outSsrcAt pre peer = some outSsrc) (h' : outSsrcAt pre' peer' = some outSsrc) :
    registrationAt pre peer = registrationAt pre' peer' ∧ peer = peer' := by
  obtain ⟨i, hi, hssrc⟩ := exists_registration h
  obtain ⟨j, hj, hssrc'⟩ := exists_registration h'
  -- both registrations are among those of the whole run
  have hle := (registrations_mono hpre).length_le
  have hle' := (registrations_mono hpre').length_le
  have hilt := Registry.lt_of_holds hi
  have hjlt := Registry.lt_of_holds hj
  have hij : i = j := ssrcOf_inj (by omega) (by omega) (hssrc.trans hssrc'.symm)
  subst hij
  refine ⟨hi.trans hj.symm, ?_⟩
  rcases List.prefix_or_prefix_of_prefix hpre hpre' with hle | hle
  · exact Registry.eq_of_holds (registrations_mono hle) hi hj
  · exact (Registry.eq_of_holds (registrations_mono hle) hj hi).symm

/-- The SSRC of a forwarded packet is that of its sender. -/
theorem outSsrcAt_of_mem {calls : List Call} {fromPeerId : PeerId} {rtpData : List UInt8}
    {send : Send} (h : send ∈ rtpAt calls fromPeerId rtpData) :
    outSsrcAt calls fromPeerId = readU32 send.data 8 := by
  obtain ⟨outSsrc, hlen, hlookup, -, -, hdata⟩ := SfuRoom.exists_of_mem_routeRtp h
  rw [hdata, readU32_rewriteSsrc hlen]
  exact hlookup

/-- In every run with fewer than 2^32 registrations, at every moment of it: the peers in `peers_`
and the keys of `peer_ssrc_map_` are the registered ones, and `route_rtp` sends the packets of a
registered peer to each of the others once and nothing else. Over the whole run, one SSRC belongs to
one registration, and so do two forwarded packets with one SSRC. -/
theorem registrations_run (calls : List Call)
    (hlen : (Session.after calls).registry.registrations.length < 2 ^ 32) :
    (∀ pre, pre <+: calls → Listed pre ∧
      ∀ fromPeerId rtpData, Routes pre fromPeerId rtpData) ∧
    ∀ pre pre', pre <+: calls → pre' <+: calls → ∀ peer peer',
      (∀ outSsrc, outSsrcAt pre peer = some outSsrc → outSsrcAt pre' peer' = some outSsrc →
        registrationAt pre peer = registrationAt pre' peer' ∧ peer = peer') ∧
      ∀ rtpData rtpData', ∀ send ∈ rtpAt pre peer rtpData, ∀ send' ∈ rtpAt pre' peer' rtpData',
        readU32 send.data 8 = readU32 send'.data 8 →
          registrationAt pre peer = registrationAt pre' peer' ∧ peer = peer' := by
  refine ⟨fun pre _ => ⟨listed pre, routes pre⟩, fun pre pre' hpre hpre' peer peer' => ⟨?_, ?_⟩⟩
  · intro outSsrc h h'
    exact registration_eq hlen hpre hpre' h h'
  · intro rtpData rtpData' send hsend send' hsend' hsame
    obtain ⟨outSsrc, -, hlookup, -⟩ := SfuRoom.exists_of_mem_routeRtp hsend
    have hout : outSsrcAt pre' peer' = some outSsrc := by
      rw [outSsrcAt_of_mem hsend', ← hsame, ← outSsrcAt_of_mem hsend]
      exact hlookup
    exact registration_eq hlen hpre hpre' hlookup hout

/-- Peer 1 leaves and comes back while peer 2 stays. -/
def rejoin : List Call :=
  [.addPeer 1, .addPeer 2, .removePeer 1, .addPeer 1]

/-- The two registrations of peer 1 have different SSRCs. -/
theorem registrations_run_rejoin : outSsrcAt [.addPeer 1] 1 ≠ outSsrcAt rejoin 1 := by
  intro hsame
  have hfirst : outSsrcAt [.addPeer 1] 1 = some 0x10000000 := by decide
  have h := ((registrations_run rejoin (by decide)).2 [.addPeer 1] rejoin
    (List.prefix_append _ _) (List.prefix_refl _) 1 1).1 _ hfirst (hsame.symm.trans hfirst)
  exact absurd h.1 (by decide)

end CppMeet.Sfu.Registrations
