import CppMeet.Sfu.Subscriber
import CppMeet.Video.Delivery

/-!
# Video through the SFU

A publisher packetizes its units and gives the packets to the room, in any order and with
repetitions; other peers come, go and publish in between. A subscriber takes the packets with the
SSRC of the publisher's registration out of what it is sent, parses them and runs its jitter buffer
on them (`Meeting`). `conference_video` says that it gets the units.

The room changes the SSRC of a packet and nothing that the subscriber looks at (`relabel`).
-/

set_option autoImplicit false

namespace CppMeet.Sfu.Conference

open CppMeet.Lib.BigEndian CppMeet.Lib.Run CppMeet.Rtp.Packet CppMeet.Rtp.JitterBuffer
open CppMeet.Rtp.Reordering CppMeet.Sfu.Room CppMeet.Sfu.Subscriber CppMeet.Video.Packetizer
open CppMeet.Video.Reassembly CppMeet.Video.Delivery

/-- The room, and the jitter buffer that one subscriber runs for one stream. -/
structure Meeting where
  sfu : Room.Session
  jitter : Rtp.JitterBuffer.Session RtpPacket

/-- A call on the room, or the receiver taking the next packet out of its buffer. -/
inductive Event where
  | call (call : Room.Call)
  | popNext

/-- The packet in a datagram, if it is an RTP packet. -/
def accept (data : List UInt8) : Option RtpPacket :=
  match ({} : RtpPacket).parse data with
  | some (true, pkt) => some pkt
  | _ => none

namespace Meeting

/-- An empty room, and an empty buffer. -/
def start : Meeting := ⟨.start, {}⟩

variable (peer : PeerId) (ssrc : UInt32)

/-- The calls of the buffer that a call of the room leads to. -/
def pushesOf (s : Room.Session) (call : Room.Call) : List (Rtp.JitterBuffer.Call RtpPacket) :=
  (((rtpTo peer s call).filter (hasSsrc ssrc)).filterMap accept).map .push

/-- What the room sends to the receiver of the stream goes into its buffer. -/
def step (m : Meeting) : Event → Meeting
  | .call call => ⟨m.sfu.step call, run .step m.jitter (pushesOf peer ssrc m.sfu call)⟩
  | .popNext => { m with jitter := m.jitter.step .popNext }

end Meeting

/-- The calls of the room among the events. -/
def roomCalls (events : List Event) : List Room.Call :=
  events.filterMap fun
    | .call call => some call
    | .popNext => none

theorem pushes_append {P : Type*} (calls calls' : List (Rtp.JitterBuffer.Call P)) :
    pushes (calls ++ calls') = pushes calls ++ pushes calls' := by
  induction calls with
  | nil => rfl
  | cons call calls ih =>
      cases call with
      | push pkt => exact congrArg (pkt :: ·) ih
      | popNext => exact ih

theorem pushes_map_push {P : Type*} (pkts : List P) :
    pushes (pkts.map Rtp.JitterBuffer.Call.push) = pkts := by
  induction pkts with
  | nil => rfl
  | cons pkt pkts ih => exact congrArg (pkt :: ·) ih

/-- The buffer of the subscriber is given what can be parsed of its stream. -/
theorem exists_calls (peer : PeerId) (ssrc : UInt32) (m : Meeting) (events : List Event) :
    ∃ calls, (run (Meeting.step peer ssrc) m events).jitter = run .step m.jitter calls ∧
      pushes calls = ((trace Room.Session.step (rtpTo peer) m.sfu (roomCalls events)).filter
        (hasSsrc ssrc)).filterMap accept := by
  induction events generalizing m with
  | nil => exact ⟨[], rfl, rfl⟩
  | cons event events ih =>
      cases event with
      | popNext =>
          obtain ⟨calls, hrun, hpushes⟩ := ih (m.step peer ssrc .popNext)
          exact ⟨.popNext :: calls, hrun, hpushes⟩
      | call call =>
          obtain ⟨calls, hrun, hpushes⟩ := ih (m.step peer ssrc (.call call))
          refine ⟨Meeting.pushesOf peer ssrc m.sfu call ++ calls, ?_, ?_⟩
          · rw [run_append]
            exact hrun
          · have hcalls : roomCalls (.call call :: events) = call :: roomCalls events := rfl
            rw [pushes_append, Meeting.pushesOf, pushes_map_push, hpushes, hcalls, trace,
              List.filter_append, List.filterMap_append]
            rfl

/-! ## Relabelled packets -/

/-- The packet with another SSRC. -/
def relabel (ssrc : UInt32) (pkt : RtpPacket) : RtpPacket :=
  { pkt with buf := rewriteSsrc pkt.buf ssrc }

variable {pt : UInt8} {ssrc : UInt32}

theorem relabel_build (out : UInt32) (seq : UInt16) (ts : UInt32) (payload : List UInt8)
    (marker : Bool) :
    relabel out (.build pt seq ts ssrc payload marker) = .build pt seq ts out payload marker := by
  have hlen := (show Built pt ssrc (.build pt seq ts ssrc payload marker) from
    ⟨seq, ts, payload, marker, rfl⟩).length
  rw [relabel, rewriteSsrc_eq hlen]
  simp only [RtpPacket.build, List.append_assoc]
  rfl

/-- A built packet is built under its new source too. -/
theorem built_relabel {pkt : RtpPacket} (h : Built pt ssrc pkt) (out : UInt32) :
    Built pt out (relabel out pkt) := by
  obtain ⟨seq, ts, payload, marker, rfl⟩ := h
  exact ⟨seq, ts, payload, marker, relabel_build out seq ts payload marker⟩

theorem sequence_relabel {pkt : RtpPacket} (h : Built pt ssrc pkt) (out : UInt32) :
    (relabel out pkt).sequence = pkt.sequence := by
  obtain ⟨seq, ts, payload, marker, rfl⟩ := h
  rw [relabel_build, RtpPacket.build_sequence, RtpPacket.build_sequence]

theorem payload_relabel {pkt : RtpPacket} (h : Built pt ssrc pkt) (out : UInt32) :
    (relabel out pkt).payload = pkt.payload := by
  obtain ⟨seq, ts, payload, marker, rfl⟩ := h
  rw [relabel_build, RtpPacket.build_payload, RtpPacket.build_payload]

/-- The subscriber parses the packet that the room has relabelled. -/
theorem accept_rewriteSsrc {pkt : RtpPacket} (h : Built pt ssrc pkt) (out : UInt32) :
    accept (rewriteSsrc pkt.buf out) = some (relabel out pkt) := by
  have hparse := (built_relabel h out).parse {}
  change ({} : RtpPacket).parse (rewriteSsrc pkt.buf out) = _ at hparse
  rw [accept, hparse]

theorem carries_relabel {start : UInt16} {pkts : List RtpPacket} {units : List (List UInt8)}
    (h : Carries start pkts units) (hbuilt : ∀ pkt ∈ pkts, Built pt ssrc pkt) (out : UInt32) :
    Carries start (pkts.map (relabel out)) units where
  inSequence := by
    intro i pkt hpkt
    rw [List.getElem?_map] at hpkt
    obtain ⟨pkt', hpkt', rfl⟩ := Option.map_eq_some_iff.1 hpkt
    exact (sequence_relabel (hbuilt pkt' (List.mem_of_getElem? hpkt')) out).trans
      (h.inSequence i pkt' hpkt')
  reassembles := by
    have hpayloads : (pkts.map (relabel out)).map RtpPacket.payload =
        pkts.map RtpPacket.payload := by
      rw [List.map_map]
      exact List.map_congr_left fun pkt hpkt => payload_relabel (hbuilt pkt hpkt) out
    rw [reassemble, hpayloads]
    exact h.reassembles

/-! ## The subscriber gets the units -/

section Stream

variable {start : UInt16} {pkts : List RtpPacket} {units : List (List UInt8)}
variable (hcarries : Carries start pkts units) (hbuilt : ∀ pkt ∈ pkts, Built pt ssrc pkt)

include hbuilt

/-- What the subscriber parses, when the publisher gives the room the packets `heard`. -/
theorem mem_accepted {heard : List (List UInt8)}
    (hheard : ∀ data ∈ heard, data ∈ pkts.map RtpPacket.buf) (out : UInt32) (pkt : RtpPacket) :
    pkt ∈ (heard.map fun data => rewriteSsrc data out).filterMap accept ↔
      ∃ pkt' ∈ pkts, pkt'.buf ∈ heard ∧ relabel out pkt' = pkt := by
  simp only [List.filterMap_map, List.mem_filterMap, Function.comp_def]
  constructor
  · rintro ⟨data, hdata, haccept⟩
    obtain ⟨pkt', hpkt', rfl⟩ := List.mem_map.1 (hheard data hdata)
    rw [accept_rewriteSsrc (hbuilt pkt' hpkt')] at haccept
    exact ⟨pkt', hpkt', hdata, Option.some.inj haccept⟩
  · rintro ⟨pkt', hpkt', hdata, rfl⟩
    exact ⟨pkt'.buf, hdata, accept_rewriteSsrc (hbuilt pkt' hpkt') out⟩

/-- The receiver hears the first packet first. -/
theorem head?_accepted {heard : List (List UInt8)}
    (hfirst : ∀ data ∈ heard.head?, (pkts.map RtpPacket.buf).head? = some data) (out : UInt32) :
    ∀ pkt ∈ ((heard.map fun data => rewriteSsrc data out).filterMap accept).head?,
      (pkts.map (relabel out)).head? = some pkt := by
  intro pkt hpkt
  cases heard with
  | nil => cases hpkt
  | cons data heard =>
      have hhead := hfirst data rfl
      rw [List.head?_map] at hhead ⊢
      obtain ⟨first, hpkts, rfl⟩ := Option.map_eq_some_iff.1 hhead
      have haccept := accept_rewriteSsrc (hbuilt first (List.mem_of_mem_head? hpkts)) out
      rw [List.map_cons, List.filterMap_cons_some haccept] at hpkt
      obtain rfl := Option.some.inj hpkt
      rw [hpkts]
      rfl

include hcarries in
/-- What the receiver pops is a stream under the outgoing source of the sender, so its units arrive
in order. -/
theorem video_of_carries (hpkts : pkts.length ≤ 65535) {events : List Event}
    (hlen : (Session.after (roomCalls events)).registry.registrations.length ≤ 2 ^ 32) {i : ℕ}
    (hi : i < 2 ^ 32) {peer : PeerId}
    (hpublished : ∀ data ∈ trace Room.Session.step (published i peer) .start (roomCalls events),
      data ∈ pkts.map RtpPacket.buf)
    (hfirst : ∀ data ∈ (trace Room.Session.step (published i peer) .start
      (roomCalls events)).head?, (pkts.map RtpPacket.buf).head? = some data) :
    let jitter := (run (Meeting.step peer (ssrcOf i)) .start events).jitter
    (∃ a, (jitter.popped.map RtpPacket.payload).foldlM receive {} = some a ∧ a.nals <+: units) ∧
      ((∀ pkt ∈ pkts, pkt.buf ∈
          trace Room.Session.step (published i peer) .start (roomCalls events)) →
        reassemble (jitter.popped ++ jitter.buffer.popAll.1) = some units) := by
  obtain ⟨calls, hrun, hpushes⟩ := exists_calls peer (ssrcOf i) .start events
  rw [Meeting.start, rtpTo_eq_published hlen hi] at hpushes
  rw [hrun]
  -- what the subscriber parses are the relabelled packets
  have hmem := mem_accepted hbuilt hpublished (ssrcOf i)
  have hunits := units_of_calls (carries_relabel hcarries hbuilt (ssrcOf i))
    (by rwa [List.length_map]) calls ?_ ?_
  · refine ⟨hunits.1, fun hall => hunits.2 fun pkt hpkt => ?_⟩
    obtain ⟨pkt', hpkt', rfl⟩ := List.mem_map.1 hpkt
    rw [hpushes, hmem]
    exact ⟨pkt', hpkt', hall pkt' hpkt', rfl⟩
  · intro pkt hpkt
    rw [hpushes, hmem] at hpkt
    obtain ⟨pkt', hpkt', -, rfl⟩ := hpkt
    exact List.mem_map_of_mem hpkt'
  · rw [hpushes]
    exact head?_accepted hbuilt hfirst (ssrcOf i)

end Stream

/-- A run of the room with at most 2^32 registrations. What the publisher of registration `i` gives
to the room while the subscriber is there are packets of its units, the first packet first. Then
the packets that the subscriber's buffer has handed out at any time rebuild a prefix of the units,
and all of them once every packet was given and the buffer is emptied. -/
theorem conference_video (pt : UInt8) (ssrc : UInt32) (nals : List (UInt32 × AnnexB)) (seq : UInt16)
    (events : List Event) (i : ℕ) (peer : PeerId) (hi : i < 2 ^ 32)
    (hlen : (Session.after (roomCalls events)).registry.registrations.length ≤ 2 ^ 32)
    (hpkts : (packetizeAll pt ssrc (nalUnits nals) seq).1.flatten.length ≤ 65535)
    (hpublished : ∀ data ∈ trace Room.Session.step (published i peer) .start (roomCalls events),
      data ∈ (packetizeAll pt ssrc (nalUnits nals) seq).1.flatten.map RtpPacket.buf)
    (hfirst : ∀ data ∈ (trace Room.Session.step (published i peer) .start
        (roomCalls events)).head?,
      ((packetizeAll pt ssrc (nalUnits nals) seq).1.flatten.map
        RtpPacket.buf).head? = some data) :
    let units := (bodies nals).filter (· ≠ [])
    let jitter := (run (Meeting.step peer (ssrcOf i)) .start events).jitter
    (∃ a, (jitter.popped.map RtpPacket.payload).foldlM receive {} = some a ∧ a.nals <+: units) ∧
      ((∀ pkt ∈ (packetizeAll pt ssrc (nalUnits nals) seq).1.flatten, pkt.buf ∈
          trace Room.Session.step (published i peer) .start (roomCalls events)) →
        reassemble (jitter.popped ++ jitter.buffer.popAll.1) = some units) :=
  video_of_carries (carries_packetizeAll nals seq)
    (built_packetizeAll (nalUnits nals) seq) hpkts hlen hi hpublished hfirst

/-- Peer 1 publishes two units, whose packets come twice; peer 2 publishes in between and peer 3
listens. -/
def twoPublishers : List Event :=
  let pkts := (packetizeAll 96 7 (nalUnits twoUnits) 65535).1.flatten
  let given := (pkts ++ pkts).map fun pkt => Event.call (.routeRtp 1 pkt.buf)
  let other := Event.call (.routeRtp 2 (RtpPacket.build 96 0 0 7 [9]).buf)
  [.call (.addPeer 1), .call (.addPeer 3), .call (.addPeer 2)] ++ given.take 1 ++
    [other, .popNext] ++ given.drop 1

theorem conference_video_twoPublishers :
    let pkts := (packetizeAll 96 7 (nalUnits twoUnits) 65535).1.flatten
    let units := (bodies twoUnits).filter (· ≠ [])
    let jitter := (run (Meeting.step 3 (ssrcOf 0)) .start twoPublishers).jitter
    (∃ a, (jitter.popped.map RtpPacket.payload).foldlM receive {} = some a ∧ a.nals <+: units) ∧
      ((∀ pkt ∈ pkts, pkt.buf ∈
          trace Room.Session.step (published 0 3) .start (roomCalls twoPublishers)) →
        reassemble (jitter.popped ++ jitter.buffer.popAll.1) = some units) :=
  conference_video 96 7 twoUnits 65535 twoPublishers 0 3 (by decide) (by decide) (by decide)
    (by decide) (by decide)

end CppMeet.Sfu.Conference
