import CppMeet.Rtp.Reordering
import CppMeet.Srtp.Inverse
import CppMeet.Video.Reassembly

/-!
# From NAL units to NAL units

The path of a video stream: the packets of `packetizeAll` are protected one after the other and
sent; the network reorders and repeats the datagrams and adds others; the receiver unprotects and
parses what arrives and pushes it into the jitter buffer, and the packets handed out go to an
RFC 6184 receiver. `video_delivered` puts together what is known of the four stages.

The part behind SRTP, `units_of_calls`, speaks of any stream of packets with consecutive numbers
that reassembles.
-/

set_option autoImplicit false

namespace CppMeet.Video.Delivery

open CppMeet.Lib.Run CppMeet.Rtp.Packet CppMeet.Rtp.JitterBuffer CppMeet.Rtp.Reordering
open CppMeet.Srtp.Session CppMeet.Srtp.Inverse CppMeet.Video.Packetizer CppMeet.Video.Reassembly

/-! ## The part behind SRTP -/

/-- A stream of packets with consecutive numbers from `start` on that carries the units. -/
structure Carries (start : UInt16) (stream : List RtpPacket) (units : List (List UInt8)) :
    Prop where
  inSequence : InSequence start stream
  reassembles : reassemble stream = some units

/-- A fragment leaves the finished units and may add one. -/
theorem nals_receiveFragment {a b : Assembly} {indicator header : UInt8} {fragment : List UInt8}
    (h : receiveFragment a indicator header fragment = some b) : a.nals <+: b.nals := by
  have hend (nal : List UInt8) (hb : (if header &&& 0x40 ≠ 0 then
      some { nals := a.nals ++ [nal], pending := none }
      else some { a with pending := some nal }) = some b) : a.nals <+: b.nals := by
    split at hb
    · obtain rfl := Option.some.inj hb
      exact List.prefix_append _ _
    · obtain rfl := Option.some.inj hb
      exact List.prefix_refl _
  rw [receiveFragment] at h
  split at h
  · exact hend _ h
  · exact hend _ h
  · cases h

/-- The receiver keeps the units that it has rebuilt. -/
theorem nals_receive {a b : Assembly} {payload : List UInt8} (h : receive a payload = some b) :
    a.nals <+: b.nals := by
  cases payload with
  | nil => cases h
  | cons header body =>
      simp only [receive] at h
      split at h
      · cases body with
        | nil => cases h
        | cons fuHeader fragment => exact nals_receiveFragment h
      · split at h
        · obtain rfl := Option.some.inj h
          exact List.prefix_append _ _
        · cases h

theorem nals_foldlM {a b : Assembly} {payloads : List (List UInt8)}
    (h : payloads.foldlM receive a = some b) : a.nals <+: b.nals := by
  induction payloads generalizing a with
  | nil =>
      obtain rfl := Option.some.inj h
      exact List.prefix_refl _
  | cons payload payloads ih =>
      rw [List.foldlM_cons] at h
      obtain ⟨m, hm, hb⟩ := Option.bind_eq_some_iff.1 h
      exact (nals_receive hm).trans (ih hb)

/-- The first packets of a stream rebuild the first of its units. -/
theorem Carries.nals_isPrefix {start : UInt16} {stream popped : List RtpPacket}
    {units : List (List UInt8)} (h : Carries start stream units) (hpopped : popped <+: stream) :
    ∃ a, (popped.map RtpPacket.payload).foldlM receive {} = some a ∧ a.nals <+: units := by
  obtain ⟨rest, rfl⟩ := hpopped
  obtain ⟨b, hb, hunits⟩ := Option.bind_eq_some_iff.1 h.reassembles
  rw [List.map_append, List.foldlM_append] at hb
  obtain ⟨a, ha, hrest⟩ := Option.bind_eq_some_iff.1 hb
  refine ⟨a, ha, ?_⟩
  split at hunits
  · obtain rfl := Option.some.inj hunits
    exact nals_foldlM hrest
  · cases hunits

/-- What the receiver has, and what it can have, when the packets of a stream have been pushed in
any order, the first packet first. -/
theorem units_of_calls {start : UInt16} {stream : List RtpPacket} {units : List (List UInt8)}
    (h : Carries start stream units) (hlen : stream.length ≤ 65535) (calls : List (Call RtpPacket))
    (hpush : ∀ pkt ∈ pushes calls, pkt ∈ stream)
    (hfirst : ∀ pkt ∈ (pushes calls).head?, stream.head? = some pkt) :
    (∃ a, ((run Session.step {} calls).popped.map RtpPacket.payload).foldlM receive {} = some a ∧
      a.nals <+: units) ∧
    ((∀ pkt ∈ stream, pkt ∈ pushes calls) →
      reassemble ((run Session.step {} calls).popped ++
        (run Session.step {} calls).buffer.popAll.1) = some units) := by
  have hrun := (Sorted.init start stream).run h.inSequence hlen hpush fun _ => hfirst
  rw [List.nil_append] at hrun
  refine ⟨h.nals_isPrefix hrun.ordered, fun harrived => ?_⟩
  have hall := Sorted.popAll h.inSequence hlen harrived _ _ hrun
  exact (congrArg reassemble hall).trans h.reassembles

/-! ## Packets of the packetizer -/

section Built

variable {pt : UInt8} {ssrc : UInt32}

/-- The packets that the packetizer makes, with any timestamp. -/
def Built (pt : UInt8) (ssrc : UInt32) (pkt : RtpPacket) : Prop :=
  ∃ seq ts payload marker, pkt = .build pt seq ts ssrc payload marker

/-- All fragments are built with the type and the source of the stream. -/
theorem built_fuaLoop (ts : UInt32) (indicator nalType : UInt8) (src : List UInt8) (first : Bool)
    (seq : UInt16) :
    ∀ pkt ∈ (fuaLoop pt ts ssrc indicator nalType src first seq).1, Built pt ssrc pkt := by
  fun_induction fuaLoop pt ts ssrc indicator nalType src first seq with
  | case1 => exact fun pkt hpkt => absurd hpkt List.not_mem_nil
  | case2 src first seq hne chunk last payload pkt rest ih =>
      intro pkt' hpkt'
      rcases List.mem_cons.1 hpkt' with rfl | hrest
      · exact ⟨_, _, _, _, rfl⟩
      · exact ih pkt' hrest

theorem built_packetize (ts : UInt32) (nal : NalUnit) (seq : UInt16) :
    ∀ pkt ∈ (packetize pt ts ssrc nal seq).1, Built pt ssrc pkt := by
  intro pkt hpkt
  simp only [packetize] at hpkt
  split at hpkt
  · exact absurd hpkt List.not_mem_nil
  · split at hpkt
    · obtain rfl := List.mem_singleton.1 hpkt
      exact ⟨_, _, _, _, rfl⟩
    · exact built_fuaLoop _ _ _ _ _ _ pkt hpkt

theorem built_packetizeAll (nals : List (UInt32 × NalUnit)) (seq : UInt16) :
    ∀ pkt ∈ (packetizeAll pt ssrc nals seq).1.flatten, Built pt ssrc pkt := by
  induction nals generalizing seq with
  | nil => exact fun pkt hpkt => absurd hpkt List.not_mem_nil
  | cons nal nals ih =>
      intro pkt hpkt
      simp only [packetizeAll, List.flatten_cons] at hpkt
      rcases List.mem_append.1 hpkt with hunit | hrest
      · exact built_packetize nal.1 nal.2 seq pkt hunit
      · exact ih _ pkt hrest

/-- What `build` writes is parsed as it was built. -/
theorem parse_build (old : RtpPacket) (seq : UInt16) (ts : UInt32) (payload : List UInt8)
    (marker : Bool) :
    old.parse (RtpPacket.build pt seq ts ssrc payload marker).buf =
      some (true, .build pt seq ts ssrc payload marker) := by
  have hlen : 12 ≤ (RtpPacket.build pt seq ts ssrc payload marker).buf.length := by
    simp only [RtpPacket.build, List.length_append]
    exact Nat.le_add_right 12 _
  have hfirst : (RtpPacket.build pt seq ts ssrc payload marker).buf[0]? = some 0x80 := rfl
  rw [RtpPacket.parse, rtpMinHeaderLen, if_neg (Nat.not_lt.2 hlen), hfirst]
  dsimp only [Option.bind_eq_bind, Option.bind_some]
  -- version 2, no contributing sources, no extension
  have hcc : 12 + ((0x80 : UInt8) &&& 0x0F).toNat * 4 = 12 := rfl
  rw [if_neg (by decide), hcc, if_neg (Nat.not_lt.2 hlen), if_neg (by decide)]
  rfl

theorem Built.parse {pkt : RtpPacket} (h : Built pt ssrc pkt) (old : RtpPacket) :
    old.parse pkt.buf = some (true, pkt) := by
  obtain ⟨seq, ts, payload, marker, rfl⟩ := h
  exact parse_build old seq ts payload marker

theorem Built.length {pkt : RtpPacket} (h : Built pt ssrc pkt) : 12 ≤ pkt.buf.length := by
  obtain ⟨seq, ts, payload, marker, rfl⟩ := h
  simp only [RtpPacket.build, List.length_append]
  exact Nat.le_add_right 12 _

/-- The packets of a stream carry its units. -/
theorem carries_packetizeAll (nals : List (UInt32 × AnnexB)) (seq : UInt16) :
    Carries seq (packetizeAll pt ssrc (nalUnits nals) seq).1.flatten
      ((bodies nals).filter (· ≠ [])) where
  inSequence := (sequence_packetizeAll pt ssrc nals seq).1
  reassembles := by
    rw [reassemble, receive_packetizeAll pt ssrc nals seq {} rfl]
    rfl

end Built

/-! ## The whole path -/

/-- The packets of a stream are protected in order. -/
def protectAll (c : Crypto) : SrtpSession → List RtpPacket → List (List UInt8)
  | _, [] => []
  | s, pkt :: pkts =>
      let result := protect c s pkt.buf
      result.inOut :: protectAll c result.session pkts

/-- The receiving end. -/
structure Receiver where
  srtp : SrtpSession
  jitter : Session RtpPacket

/-- A datagram arrives, or the receiver takes the next packet out of its buffer. -/
inductive Event where
  | datagram (data : List UInt8)
  | popNext

namespace Receiver

/-- A receiver with the keys of the sender, before anything arrives. -/
def start (key : Fin 16 → UInt8) (salt : Fin 14 → UInt8) : Receiver := ⟨init key salt false, {}⟩

variable (c : Crypto)

/-- A datagram that is not authentic, or no RTP packet, is dropped. -/
def step (r : Receiver) : Event → Receiver
  | .datagram data =>
      let received := unprotect c r.srtp data
      if received.ok then
        match ({} : RtpPacket).parse received.inOut with
        | some (true, pkt) => ⟨received.session, r.jitter.step (.push pkt)⟩
        | _ => ⟨received.session, r.jitter⟩
      else ⟨received.session, r.jitter⟩
  | .popNext => { r with jitter := r.jitter.step .popNext }

end Receiver

/-- The datagrams among the events. -/
def datagrams (events : List Event) : List (List UInt8) :=
  events.filterMap fun
    | .datagram data => some data
    | .popNext => none

/-- A receiver with the key accepts the datagram. -/
def authentic (c : Crypto) (key : Fin 16 → UInt8) (salt : Fin 14 → UInt8) (data : List UInt8) :
    Bool := (unprotect c (init key salt false) data).ok

section Path

variable {c : Crypto} {key : Fin 16 → UInt8} {salt : Fin 14 → UInt8}

theorem session_unprotect (s : SrtpSession) (data : List UInt8) :
    (unprotect c s data).session = s := by
  simp only [unprotect]
  split
  · rfl
  · split
    · rfl
    · rfl

theorem session_protect (s : SrtpSession) (pkt : List UInt8) : (protect c s pkt).session = s := by
  rw [protect]
  split
  · rfl
  · rfl

theorem protectAll_eq (s : SrtpSession) (pkts : List RtpPacket) :
    protectAll c s pkts = pkts.map fun pkt => (protect c s pkt.buf).inOut := by
  induction pkts with
  | nil => rfl
  | cons pkt pkts ih => rw [protectAll, session_protect, ih, List.map_cons]

variable (c key salt) in
/-- What was protected is accepted, and is the packet again. -/
theorem unprotect_sent {pt : UInt8} {ssrc : UInt32} {pkt : RtpPacket}
    (h : Built pt ssrc pkt) :
    let received := unprotect c (init key salt false) (protect c (init key salt true) pkt.buf).inOut
    received.ok = true ∧ received.inOut = pkt.buf := by
  obtain ⟨hok, hinOut⟩ := unprotect_congr c (init key salt true) (r := init key salt false)
    rfl rfl rfl (protect c (init key salt true) pkt.buf).inOut
  have hsent := unprotect_protect c (init key salt true) h.length
  exact ⟨hok.trans hsent.1, hinOut.trans hsent.2⟩

/-- The receiver pushes the packet that the sender protected. -/
theorem step_protected {r : Receiver} (hsrtp : r.srtp = init key salt false) {pt : UInt8}
    {ssrc : UInt32} {pkt : RtpPacket} (h : Built pt ssrc pkt) :
    r.step c (.datagram (protect c (init key salt true) pkt.buf).inOut) =
      ⟨init key salt false, r.jitter.step (.push pkt)⟩ := by
  obtain ⟨hok, hinOut⟩ := unprotect_sent c key salt h
  simp only [Receiver.step, hsrtp, hok, hinOut, h.parse, session_unprotect, if_true]

theorem step_rejected {r : Receiver} (hsrtp : r.srtp = init key salt false) {data : List UInt8}
    (h : authentic c key salt data = false) : r.step c (.datagram data) = r := by
  rw [authentic, ← hsrtp] at h
  rw [Receiver.step, h, if_neg Bool.false_ne_true, session_unprotect]

/-- Different packets become different datagrams. -/
theorem protect_inj (s : SrtpSession) {pt : UInt8} {ssrc : UInt32} {pkt pkt' : RtpPacket}
    (h : Built pt ssrc pkt) (h' : Built pt ssrc pkt')
    (heq : (protect c s pkt.buf).inOut = (protect c s pkt'.buf).inOut) : pkt = pkt' := by
  have hbuf : pkt.buf = pkt'.buf := by
    rw [← (unprotect_protect c s h.length).2, heq, (unprotect_protect c s h'.length).2]
  have hparse := h.parse {}
  rw [hbuf, h'.parse] at hparse
  exact congrArg Prod.snd (Option.some.inj hparse).symm

/-- The calls of the jitter buffer that the events make, given the packets sent. -/
theorem exists_calls {pt : UInt8} {ssrc : UInt32} {pkts : List RtpPacket}
    (hbuilt : ∀ pkt ∈ pkts, Built pt ssrc pkt) (events : List Event)
    (hauthentic : ∀ data ∈ datagrams events, authentic c key salt data = true →
      data ∈ protectAll c (init key salt true) pkts) (jitter : Session RtpPacket) :
    ∃ calls, run (Receiver.step c) ⟨init key salt false, jitter⟩ events =
        ⟨init key salt false, run Session.step jitter calls⟩ ∧
      (pushes calls).map (fun pkt => (protect c (init key salt true) pkt.buf).inOut) =
        (datagrams events).filter (authentic c key salt) ∧
      ∀ pkt ∈ pushes calls, pkt ∈ pkts := by
  induction events generalizing jitter with
  | nil => exact ⟨[], rfl, rfl, fun pkt hpkt => absurd hpkt List.not_mem_nil⟩
  | cons event events ih =>
      cases event with
      | popNext =>
          obtain ⟨calls, hrun, hpushes, hmem⟩ := ih hauthentic (jitter.step .popNext)
          exact ⟨.popNext :: calls, hrun, hpushes, hmem⟩
      | datagram data =>
          have hrest := fun jitter => ih (fun data' hdata' => hauthentic data'
            (List.mem_cons_of_mem data hdata')) jitter
          have hlist : datagrams (.datagram data :: events) = data :: datagrams events := rfl
          rw [run_cons, hlist]
          cases hok : authentic c key salt data with
          | false =>
              obtain ⟨calls, hrun, hpushes, hmem⟩ := hrest jitter
              refine ⟨calls, ?_, ?_, hmem⟩
              · -- not authentic, so the receiver drops it
                rw [step_rejected rfl hok]
                exact hrun
              · rw [List.filter_cons_of_neg (ne_true_of_eq_false hok)]
                exact hpushes
          | true =>
              -- authentic, so it was sent and its packet is pushed
              have hsent := hauthentic data List.mem_cons_self hok
              rw [protectAll_eq] at hsent
              obtain ⟨pkt, hpkt, rfl⟩ := List.mem_map.1 hsent
              obtain ⟨calls, hrun, hpushes, hmem⟩ := hrest (jitter.step (.push pkt))
              refine ⟨.push pkt :: calls, ?_, ?_, ?_⟩
              · rw [step_protected rfl (hbuilt pkt hpkt)]
                exact hrun
              · rw [List.filter_cons_of_pos hok, pushes, List.map_cons, hpushes]
              · intro pkt' hpkt'
                rcases List.mem_cons.1 hpkt' with rfl | hlater
                · exact hpkt
                · exact hmem pkt' hlater

/-- The path for any packets of the packetizer that carry the units. -/
theorem delivered_of_carries {pt : UInt8} {ssrc : UInt32} {start : UInt16}
    {pkts : List RtpPacket} {units : List (List UInt8)} (hcarries : Carries start pkts units)
    (hbuilt : ∀ pkt ∈ pkts, Built pt ssrc pkt) (hlen : pkts.length ≤ 65535)
    {events : List Event}
    (hauthentic : ∀ data ∈ datagrams events, authentic c key salt data = true →
      data ∈ protectAll c (init key salt true) pkts)
    (hfirst : ∀ data ∈ ((datagrams events).filter (authentic c key salt)).head?,
      (protectAll c (init key salt true) pkts).head? = some data) :
    let jitter := (run (Receiver.step c) (.start key salt) events).jitter
    (∃ a, (jitter.popped.map RtpPacket.payload).foldlM receive {} = some a ∧ a.nals <+: units) ∧
      ((∀ data ∈ protectAll c (init key salt true) pkts, data ∈ datagrams events) →
        reassemble (jitter.popped ++ jitter.buffer.popAll.1) = some units) := by
  obtain ⟨calls, hrun, hpushes, hmem⟩ := exists_calls hbuilt events hauthentic {}
  rw [Receiver.start, hrun]
  rw [protectAll_eq] at hfirst ⊢
  have hunits := units_of_calls hcarries hlen _ hmem ?_
  · refine ⟨hunits.1, fun harrived => hunits.2 fun pkt hpkt => ?_⟩
    -- the datagram of the packet has arrived and was accepted
    have hdata := harrived _ (List.mem_map_of_mem hpkt)
    have hok : authentic c key salt (protect c (init key salt true) pkt.buf).inOut = true :=
      (unprotect_sent c key salt (hbuilt pkt hpkt)).1
    have hpushed := List.mem_filter.2 ⟨hdata, hok⟩
    rw [← hpushes] at hpushed
    obtain ⟨pkt', hpkt', heq⟩ := List.mem_map.1 hpushed
    obtain rfl := protect_inj _ (hbuilt pkt' (hmem pkt' hpkt')) (hbuilt pkt hpkt) heq
    exact hpkt'
  · intro pkt hpkt
    have hmap := List.head?_map (f := fun pkt => (protect c (init key salt true) pkt.buf).inOut)
      (l := pushes calls)
    rw [hpushes, Option.mem_def.1 hpkt] at hmap
    have hhead := hfirst _ hmap
    rw [List.head?_map] at hhead
    obtain ⟨pkt', hpkt', heq⟩ := Option.map_eq_some_iff.1 hhead
    have hmem' := List.mem_of_mem_head? hpkt'
    obtain rfl := protect_inj _ (hbuilt pkt' hmem')
      (hbuilt pkt (hmem pkt (List.mem_of_mem_head? hpkt))) heq
    exact hpkt'

end Path

/-- A receiver that shares the key, and units with any timestamps. Every datagram that is authentic
was sent, and the first of them to arrive is the first that was sent. Then the packets handed out at
any time rebuild a prefix of the units, and all of them once every datagram has arrived and the
buffer is emptied. -/
theorem video_delivered (c : Crypto) (key : Fin 16 → UInt8) (salt : Fin 14 → UInt8) (pt : UInt8)
    (ssrc : UInt32) (nals : List (UInt32 × AnnexB)) (seq : UInt16) (events : List Event)
    (hlen : (packetizeAll pt ssrc (nalUnits nals) seq).1.flatten.length ≤ 65535)
    (hauthentic : ∀ data ∈ datagrams events, authentic c key salt data = true →
      data ∈ protectAll c (init key salt true)
        (packetizeAll pt ssrc (nalUnits nals) seq).1.flatten)
    (hfirst : ∀ data ∈ ((datagrams events).filter (authentic c key salt)).head?,
      (protectAll c (init key salt true)
        (packetizeAll pt ssrc (nalUnits nals) seq).1.flatten).head? = some data) :
    let sent := protectAll c (init key salt true)
      (packetizeAll pt ssrc (nalUnits nals) seq).1.flatten
    let units := (bodies nals).filter (· ≠ [])
    let jitter := (run (Receiver.step c) (.start key salt) events).jitter
    (∃ a, (jitter.popped.map RtpPacket.payload).foldlM receive {} = some a ∧ a.nals <+: units) ∧
      ((∀ data ∈ sent, data ∈ datagrams events) →
        reassemble (jitter.popped ++ jitter.buffer.popAll.1) = some units) := by
  exact delivered_of_carries (carries_packetizeAll nals seq)
    (built_packetizeAll (nalUnits nals) seq) hlen hauthentic hfirst

/-- Two units of one packet each, numbered 65535 and 0, the second of a later frame. -/
def twoUnits : List (UInt32 × AnnexB) :=
  [(90000, ⟨.four, [0x67, 1], by rintro _ ⟨⟩; decide⟩),
    (93000, ⟨.three, [0x65, 2, 3], by rintro _ ⟨⟩; decide⟩)]

/-- Both datagrams arrive, the first of them twice. -/
theorem video_delivered_twoUnits :
    let c : Crypto := ⟨fun _ block => block, fun _ _ _ => 0⟩
    let key : Fin 16 → UInt8 := fun _ => 1
    let salt : Fin 14 → UInt8 := fun _ => 2
    let pkts := (packetizeAll 96 7 (nalUnits twoUnits) 65535).1.flatten
    let sent := protectAll c (init key salt true) pkts
    let events := (sent ++ sent.take 1).map Event.datagram
    let units := (bodies twoUnits).filter (· ≠ [])
    let jitter := (run (Receiver.step c) (.start key salt) events).jitter
    (∃ a, (jitter.popped.map RtpPacket.payload).foldlM receive {} = some a ∧ a.nals <+: units) ∧
      ((∀ data ∈ sent, data ∈ datagrams events) →
        reassemble (jitter.popped ++ jitter.buffer.popAll.1) = some units) := by
  intro c key salt pkts sent events
  have hdatagrams : datagrams events = sent ++ sent.take 1 := rfl
  refine video_delivered c key salt 96 7 twoUnits 65535 events (by decide) ?_ ?_
  · intro data hdata _
    rw [hdatagrams] at hdata
    rcases List.mem_append.1 hdata with hsent | hagain
    · exact hsent
    · exact List.mem_of_mem_take hagain
  · intro data hdata
    -- the first datagram is authentic
    have hok : authentic c key salt (protect c (init key salt true)
        (RtpPacket.build 96 65535 90000 7 [0x67, 1] true).buf).inOut = true :=
      (unprotect_sent c key salt (show Built 96 7 _ from ⟨_, _, _, _, rfl⟩)).1
    rw [hdatagrams] at hdata
    change data ∈ (List.filter (authentic c key salt) ((protect c (init key salt true)
      (RtpPacket.build 96 65535 90000 7 [0x67, 1] true).buf).inOut :: _)).head? at hdata
    rw [List.filter_cons_of_pos hok] at hdata
    exact hdata

end CppMeet.Video.Delivery
