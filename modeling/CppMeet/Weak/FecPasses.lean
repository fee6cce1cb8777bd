import CppMeet.Weak.FecStream

/-!
# Several passes over the sequence numbers

A `Link` is an encoder whose output goes to one decoder, in order and with losses. The decoder keeps
an entry until it recovers a packet from it and never overwrites a filled slot, so after 2^16
packets an entry can hold packets and an FEC packet of an earlier pass.

`Uncrossed` says that a step does not complete such an entry: a data packet does not leave exactly
one empty slot beside an FEC packet, and an FEC packet meets only packets of its own group when one
slot is empty. In a run of such steps every packet that the decoder returns has the payload of the
packet most recently sent with its number, up to padding (`genuine_along`). Without the condition
the decoder mixes two passes (`forged_along_crossing`).
-/

set_option autoImplicit false

namespace CppMeet.Weak.FecPasses

open CppMeet.Lib.PadXor CppMeet.Lib.Run CppMeet.Rtp.Packet CppMeet.Weak.Fec
open CppMeet.Weak.FecRecovery CppMeet.Weak.FecStream

/-- A data packet is sent and arrives or is lost, or the FEC packet just sent arrives. -/
inductive Event where
  | data (pkt : RtpPacket) (arrives : Bool)
  | fec

/-- The two ends, the packets sent so far, and the FEC packet that follows the last of them. -/
structure Link (g : ℕ) where
  encoder : XorFecEncoder := { groupSize := g }
  decoder : XorFecDecoder g := .init g
  sent : List RtpPacket := []
  pending : Option RtpPacket := none

namespace Link

variable {g : ℕ}

/-- What reaches the decoder at an event. -/
def arriving (l : Link g) : Event → Option Symbol
  | .data pkt arrives => if arrives then some ⟨pkt, false⟩ else none
  | .fec => l.pending.map fun f => ⟨f, true⟩

/-- One event of the link: the encoder takes the packet in, and what arrives goes to the decoder. -/
def step (l : Link g) (ev : Event) : Link g :=
  let decoder := match l.arriving ev with
    | some s => l.decoder.next s
    | none => l.decoder
  match ev with
  | .data pkt _ =>
      { encoder := (l.encoder.feed pkt).1
        decoder := decoder
        sent := l.sent ++ [pkt]
        pending := (l.encoder.feed pkt).2 }
  | .fec => { l with decoder := decoder, pending := none }

/-- What the decoder returns at an event. -/
def returned (l : Link g) (ev : Event) : Option RtpPacket :=
  (l.arriving ev).bind fun s => (l.decoder.feed s).2

end Link

/-- Packet `i` is the one most recently sent with its sequence number. -/
def MostRecent (sent : List RtpPacket) (i : ℕ) (pkt : RtpPacket) : Prop :=
  sent[i]? = some pkt ∧
    ∀ j later, i < j → sent[j]? = some later → later.sequence ≠ pkt.sequence

/-- The group of packet `i` of a stream. -/
def groupOf (g : ℕ) (sent : List RtpPacket) (i : ℕ) : List RtpPacket :=
  (sent.drop (i / g * g)).take g

/-- The packet has the payload of the packet most recently sent with its number, padded to the
longest payload of its group. -/
def Genuine (g : ℕ) (sent : List RtpPacket) (pkt : RtpPacket) : Prop :=
  ∃ i orig, MostRecent sent i orig ∧ orig.sequence = pkt.sequence ∧
    pkt.payload = orig.payload ++ List.replicate
      (maxLen ((groupOf g sent i).map RtpPacket.payload) - orig.payload.length) 0

variable {g : ℕ}

/-- All packets returned at an event are genuine. -/
def Sound (l : Link g) (ev : Event) : Prop :=
  ∀ pkt, l.returned ev = some pkt → Genuine g (l.step ev).sent pkt

/-- The event does not complete an entry that holds something of an earlier pass. -/
def Uncrossed (l : Link g) : Event → Prop
  | .data pkt arrives =>
      arrives = true →
        let grp := l.decoder.entry (dataBase g pkt.sequence)
        grp.fec = none ∨ ¬ ∃ i j : Fin g, i ≠ j ∧
          (dataBase g pkt.sequence).toNat + i = pkt.sequence.toNat ∧
          ∀ m, grp.pkts m = none ↔ m = i ∨ m = j
  | .fec =>
      ∀ f, l.pending = some f →
        let grp := l.decoder.entry (Symbol.base g ⟨f, true⟩)
        (∃ k, ∀ m, grp.pkts m = none ↔ m = k) →
          ∀ i pkt, grp.pkts i = some pkt → l.sent[l.sent.length - g + i]? = some pkt

/-- The packets sent by a list of events. -/
def packets : List Event → List RtpPacket
  | [] => []
  | .data pkt _ :: evs => pkt :: packets evs
  | .fec :: evs => packets evs

/-- A delivery of a stream of consecutive packets that starts at a group boundary, for a group size
that divides 2^16. -/
structure Delivery (g : ℕ) where
  start : UInt16
  events : List Event
  dvd : g ∣ 2 ^ 16
  aligned : g ∣ start.toNat
  consecutive : Consecutive start (packets events)

/-! ## One event -/

/-- What holds between two events. -/
structure Inv (start : UInt16) (l : Link g) : Prop where
  size : l.encoder.groupSize = g
  partway : l.encoder.Partway (openGroup g l.sent)
  consecutive : Consecutive start l.sent
  atRest : l.decoder.AtRest
  pending : ∀ f, l.pending = some f →
    g ∣ l.sent.length ∧ g ≤ l.sent.length ∧
      ∃ e : XorFecEncoder, f = e.fecPacket (lastGroup g l.sent)

/-- The packet of a data event continues the stream. -/
def Numbered (start : UInt16) (l : Link g) : Event → Prop
  | .data pkt _ => pkt.sequence = start + UInt16.ofNat l.sent.length
  | .fec => True

variable {start : UInt16} {l : Link g}

theorem Inv.init (hg : 0 < g) : Inv start ({} : Link g) where
  size := rfl
  partway := by
    rw [openGroup, List.drop_nil]
    exact XorFecEncoder.partway_nil rfl hg
  consecutive i h := absurd h (Nat.not_lt_zero i)
  atRest := XorFecDecoder.atRest_init g
  pending f h := by cases h

theorem Inv.decoder_step (h : Inv start l) (ev : Event) : (l.step ev).decoder.AtRest := by
  have hdecoder : (match l.arriving ev with
      | some s => l.decoder.next s
      | none => l.decoder).AtRest := by
    cases l.arriving ev with
    | none => exact h.atRest
    | some s => exact h.atRest.feed s
  cases ev with
  | data pkt arrives => exact hdecoder
  | fec => exact hdecoder

theorem Inv.step (h : Inv start l) {ev : Event} (hnum : Numbered start l ev) :
    Inv start (l.step ev) := by
  cases ev with
  | data pkt arrives =>
      obtain ⟨hpart, hfec⟩ := feed_stream h.size h.partway pkt
      refine ⟨(XorFecEncoder.feed_groupSize _ _).trans h.size, hpart, h.consecutive.append hnum,
        h.decoder_step (.data pkt arrives), fun f hf => ?_⟩
      change (l.encoder.feed pkt).2 = some f at hf
      change g ∣ (l.sent ++ [pkt]).length ∧ _
      rw [hfec] at hf
      split_ifs at hf with hdvd
      have hpos : 0 < (l.sent ++ [pkt]).length := by simp
      exact ⟨hdvd, Nat.le_of_dvd hpos hdvd, l.encoder, (Option.some.inj hf).symm⟩
  | fec =>
      refine ⟨h.size, h.partway, h.consecutive, h.decoder_step .fec, fun f hf => ?_⟩
      cases hf

/-- A data packet that does not cross passes recovers nothing. -/
theorem Inv.returned_data (h : Inv start l) {pkt : RtpPacket} {arrives : Bool}
    (hun : Uncrossed l (.data pkt arrives)) : l.returned (.data pkt arrives) = none := by
  cases arrives with
  | false => rfl
  | true =>
      change (l.decoder.feed ⟨pkt, false⟩).2 = none
      rw [XorFecDecoder.feed_result _ h.atRest.quiet, base_data rfl]
      have hquiet := h.atRest.quiet.entry (dataBase g pkt.sequence)
      have hle := dataBase_le g pkt.sequence
      cases hrec : (l.decoder.filed ⟨pkt, false⟩).recover (dataBase g pkt.sequence) with
      | none => rfl
      | some r =>
          exfalso
          obtain ⟨fec, k, hfec, hmissing, -⟩ := Group.recover_eq_some hrec
          rw [XorFecDecoder.filed, base_data rfl, Group.file_data rfl] at hfec hmissing
          rw [Group.putData_fec] at hfec
          rcases hun rfl with hnone | hcross
          · rw [hnone] at hfec
            cases hfec
          · rcases Group.missing_of_putData hmissing with hbefore | ⟨i, hik, hi, htwo⟩
            · -- the entry was recoverable before
              rw [Group.recover_of_missing hfec hbefore] at hquiet
              cases hquiet
            · refine hcross ⟨i, k, hik, ?_, htwo⟩
              rw [hi]
              exact Nat.add_sub_cancel' hle

/-- The packets of the last group are the most recent ones with their numbers. -/
theorem mostRecent_lastData {sent : List RtpPacket} (hcons : Consecutive start sent)
    (hlen : g ≤ sent.length) (hfits : (lastBase g start sent).toNat + g ≤ 2 ^ 16) (k : Fin g) :
    MostRecent sent (sent.length - g + k) (lastData hlen k) := by
  refine ⟨getElem?_lastData hlen k, fun j later hj hlater heq => ?_⟩
  obtain ⟨hjlt, rfl⟩ := List.getElem?_eq_some_iff.1 hlater
  have hk := k.isLt
  have hseq := congrArg UInt16.toNat heq
  have hj' := sequence_lastData hcons hlen ⟨j - (sent.length - g), by omega⟩
  have hjdata : lastData hlen ⟨j - (sent.length - g), by omega⟩ = sent[j] := by
    rw [lastData, List.get_eq_getElem]
    congr 1
    dsimp only
    omega
  rw [hjdata, hseq, sequence_lastData hcons hlen k] at hj'
  dsimp only at hj'
  omega

/-- The group of a packet of the last group. -/
theorem groupOf_last {sent : List RtpPacket} (hdiv : g ∣ sent.length) (hlen : g ≤ sent.length)
    (k : Fin g) : groupOf g sent (sent.length - g + k) = lastGroup g sent := by
  have hk := k.isLt
  have hstart : (sent.length - g + k) / g * g = sent.length - g := by
    obtain ⟨q, hq⟩ := Nat.dvd_sub hdiv (Nat.dvd_refl g)
    rw [hq, Nat.mul_add_div k.pos, Nat.div_eq_of_lt hk, Nat.add_zero, Nat.mul_comm]
  rw [groupOf, hstart, lastGroup, List.take_of_length_le]
  rw [List.length_drop]
  omega

/-- An entry with one empty slot whose packets are those of a family. -/
theorem pkts_of_missing {grp : Group g} {k : Fin g} {data : Fin g → RtpPacket}
    (hmissing : ∀ i, grp.pkts i = none ↔ i = k) (hdata : ∀ i p, grp.pkts i = some p → p = data i)
    (i : Fin g) : grp.pkts i = if i = k then none else some (data i) := by
  by_cases hi : i = k
  · rw [if_pos hi]
    exact (hmissing i).2 hi
  · obtain ⟨p, hp⟩ := Option.ne_none_iff_exists'.1 fun hnone => hi ((hmissing i).1 hnone)
    rw [if_neg hi, hp, hdata i p hp]

/-- The FEC packet of a group whose entry holds only packets of the group recovers a genuine
packet. -/
theorem Inv.genuine_fec (h : Inv start l) (hdvd : g ∣ 2 ^ 16) (haligned : g ∣ start.toNat)
    (hun : Uncrossed l .fec) {r : RtpPacket} (hr : l.returned .fec = some r) :
    Genuine g l.sent r := by
  cases hpend : l.pending with
  | none =>
      rw [Link.returned, Link.arriving, hpend] at hr
      cases hr
  | some f =>
      -- the FEC packet is the one of the last group, which is aligned
      obtain ⟨hdiv, hlen, e, rfl⟩ := h.pending f hpend
      have hpos : 0 < g := Nat.pos_of_dvd_of_pos hdvd (by decide)
      obtain ⟨hbase, hfits⟩ := aligned_lastBase hdvd haligned hdiv
      let G := alignedGroup h.consecutive hlen hbase hfits
      have hkey : Symbol.base g ⟨e.fecPacket (lastGroup g l.sent), true⟩ = G.base :=
        (base_fecPacket e _).trans (firstSeq_lastGroup h.consecutive hlen hpos)
      have hown := hun _ hpend
      rw [Link.returned, Link.arriving, hpend] at hr
      change (l.decoder.feed ⟨e.fecPacket (lastGroup g l.sent), true⟩).2 = some r at hr
      rw [XorFecDecoder.feed_result _ h.atRest.quiet, XorFecDecoder.filed, hkey,
        Group.file_fec_of_isFec rfl] at hr
      rw [hkey] at hown
      obtain ⟨fec, k, -, hmissing, -⟩ := Group.recover_eq_some hr
      -- the filled slots hold packets of the last group
      have hgenuine : ∀ i p, (l.decoder.entry G.base).pkts i = some p → p = G.data i := by
        intro i p hp
        have hsent := hown ⟨k, hmissing⟩ i p hp
        rw [getElem?_lastData hlen] at hsent
        exact (Option.some.inj hsent).symm
      have hpkts := pkts_of_missing hmissing hgenuine
      have hpayloads : (lastGroup g l.sent).map RtpPacket.payload = G.payloads := by
        rw [AlignedGroup.payloads, ← ofFn_lastData hlen]
        rfl
      have hfec : ({ l.decoder.entry G.base with
          fec := some (e.fecPacket (lastGroup g l.sent)) } : Group g).fec =
            some (e.fecPacket (lastGroup g l.sent)) := rfl
      obtain ⟨pkt, hrec, hseq, hpayload⟩ :=
        AlignedGroup.recover_padded hfec hpkts (congrArg xorAll hpayloads)
      obtain rfl := Option.some.inj (hrec.symm.trans hr)
      refine ⟨l.sent.length - g + k, G.data k, mostRecent_lastData h.consecutive hlen hfits k,
        hseq.symm, ?_⟩
      -- the longest payload of the last group gives the padding
      rw [hpayload, groupOf_last hdiv hlen k, hpayloads]
      rfl

/-! ## Runs -/

theorem sent_run (l : Link g) (evs : List Event) :
    (run Link.step l evs).sent = l.sent ++ packets evs := by
  induction evs generalizing l with
  | nil => rw [packets, List.append_nil, run_nil]
  | cons ev evs ih =>
      rw [run_cons, ih]
      cases ev with
      | data pkt arrives =>
          rw [packets]
          exact List.append_assoc _ _ _
      | fec => rfl

theorem packets_append (evs evs' : List Event) :
    packets (evs ++ evs') = packets evs ++ packets evs' := by
  induction evs with
  | nil => rfl
  | cons ev evs ih =>
      cases ev with
      | data pkt arrives => exact congrArg (pkt :: ·) ih
      | fec => exact ih

/-- The events of a delivery send the packets of its stream one after the other. -/
theorem Delivery.along_numbered (D : Delivery g) :
    Along Link.step (Numbered D.start) ({} : Link g) D.events := by
  rw [along_iff_split]
  intro pre ev post hsplit
  cases ev with
  | fec => trivial
  | data pkt arrives =>
      have hpackets : packets D.events = packets pre ++ pkt :: packets post := by
        rw [hsplit, packets_append]
        rfl
      have hcons := D.consecutive
      rw [hpackets] at hcons
      have hseq := hcons (packets pre).length (by simp)
      rw [List.getElem_append_right (Nat.le_refl _)] at hseq
      simp only [Nat.sub_self, List.getElem_cons_zero] at hseq
      change pkt.sequence = D.start + UInt16.ofNat (run Link.step {} pre).sent.length
      rw [sent_run]
      exact hseq

/-- In a delivery whose events do not cross passes, the decoder returns genuine packets only. -/
theorem genuine_along (D : Delivery g) (hun : Along Link.step Uncrossed ({} : Link g) D.events) :
    Along Link.step Sound ({} : Link g) D.events := by
  have hpos : 0 < g := Nat.pos_of_dvd_of_pos D.dvd (by decide)
  refine along_of_inv (I := Inv D.start) (P := fun l ev => Numbered D.start l ev ∧ Uncrossed l ev)
    ?_ ?_ (Inv.init hpos) (along_and_iff.2 ⟨D.along_numbered, hun⟩)
  · exact fun l ev h hP => h.step hP.1
  · rintro l (⟨pkt, arrives⟩ | _) h ⟨-, hun⟩ r hr
    · rw [h.returned_data hun] at hr
      cases hr
    · exact h.genuine_fec D.dvd D.aligned hun hr

/-! ## Two deliveries -/

/-- Packet `i` of a stream: payload 1, payload 2, and payload 5 from there on. -/
def numbered (i : ℕ) : RtpPacket :=
  .build 96 (UInt16.ofNat i) 0 1 (if i = 0 then [1] else if i = 1 then [2] else [5])

/-- The packets of the example are numbered from 0 on. -/
theorem consecutive_numbered (n : ℕ) : Consecutive 0 ((List.range n).map numbered) := by
  intro i h
  rw [List.getElem_map, List.getElem_range, numbered, RtpPacket.build_sequence, UInt16.zero_add]

/-- The second of two packets is lost. -/
def oneLoss : Delivery 2 where
  start := 0
  events := [.data (numbered 0) true, .data (numbered 1) false, .fec]
  dvd := ⟨2 ^ 15, rfl⟩
  aligned := ⟨0, rfl⟩
  consecutive := consecutive_numbered 2

theorem genuine_along_oneLoss :
    Genuine 2 [numbered 0, numbered 1] (.build 96 1 0 1 [2]) := by
  have hun : Along Link.step Uncrossed ({} : Link 2) oneLoss.events := by
    refine ⟨fun _ => Or.inl rfl, fun h => absurd h Bool.false_ne_true, ?_, trivial⟩
    intro f hf grp _ i pkt hi
    obtain rfl := Option.some.inj hf
    match i with
    | 0 => exact hi
    | 1 => exact absurd hi (Option.some_ne_none pkt).symm
  exact (genuine_along oneLoss hun).2.2.1 _ (by decide)

/-- The first pass: of its first group only the FEC packet arrives, and the `n` packets after it are
lost. -/
def firstPass (n : ℕ) : List Event :=
  [.data (numbered 0) false, .data (numbered 1) false, .fec] ++
    (List.range n).map fun i => .data (numbered (2 + i)) false

theorem packets_firstPass (n : ℕ) :
    packets (firstPass n) = (List.range (2 + n)).map numbered := by
  have hlost : packets ((List.range n).map fun i => .data (numbered (2 + i)) false) =
      (List.range n).map fun i => numbered (2 + i) := by
    induction n with
    | zero => rfl
    | succ n ih =>
        rw [List.range_succ, List.map_append, packets_append, ih, List.map_append]
        rfl
  rw [firstPass, packets_append, hlost, List.range_add, List.map_append, List.map_map]
  rfl

/-- The first packet of the second pass arrives. -/
def crossingEvents (n : ℕ) : List Event := firstPass n ++ [.data (numbered (2 + n)) true]

theorem packets_crossing (n : ℕ) :
    packets (crossingEvents n) = (List.range (2 + n + 1)).map numbered := by
  rw [crossingEvents, packets_append, packets_firstPass, List.range_succ, List.map_append]
  rfl

/-- The delivery of these packets, the first one of the second pass the only data packet to
arrive. -/
def crossing (n : ℕ) : Delivery 2 where
  start := 0
  events := crossingEvents n
  dvd := ⟨2 ^ 15, rfl⟩
  aligned := ⟨0, rfl⟩
  consecutive := packets_crossing n ▸ consecutive_numbered (2 + n + 1)

/-- The decoder after the first pass holds a FEC packet and nothing else. -/
theorem decoder_firstPass (n : ℕ) :
    (run Link.step ({} : Link 2) (firstPass n)).decoder =
      (XorFecDecoder.init 2).next ⟨.build 127 0 0 0xFEC00000 [3], true⟩ := by
  have hlost (l : Link 2) (is : List ℕ) :
      (run Link.step l (is.map fun i => .data (numbered (2 + i)) false)).decoder = l.decoder := by
    induction is generalizing l with
    | nil => rfl
    | cons i is ih => exact ih _
  rw [firstPass, run_append, hlost]
  rfl

/-- Every payload of the stream starts with 1, 2 or 5. -/
theorem numbered_payload (i : ℕ) :
    (numbered i).payload = [1] ∨ (numbered i).payload = [2] ∨ (numbered i).payload = [5] := by
  rw [numbered, RtpPacket.build_payload]
  split_ifs
  · exact Or.inl rfl
  · exact Or.inr (Or.inl rfl)
  · exact Or.inr (Or.inr rfl)

/-- When the first packet of the second pass has the number of the first packet of all, the decoder
returns a packet that was never sent. -/
theorem forged_of_wrap (n : ℕ) (hn : UInt16.ofNat (2 + n) = 0) :
    ¬ Along Link.step Sound ({} : Link 2) (crossing n).events := by
  intro h
  have hlast := ((along_concat _ (firstPass n) _).1 h).2
  have hpkt : numbered (2 + n) = .build 96 0 0 1 [5] := by
    rw [numbered, hn, if_neg (by omega), if_neg (by omega)]
  -- the payloads 3 of the FEC packet and 5 of the new packet give 6
  have hforged : (run Link.step ({} : Link 2) (firstPass n)).returned
      (.data (numbered (2 + n)) true) = some (.build 96 1 0 1 [6]) := by
    change
      ((run Link.step ({} : Link 2) (firstPass n)).decoder.feed ⟨numbered (2 + n), false⟩).2 = _
    rw [decoder_firstPass, hpkt]
    decide
  obtain ⟨i, orig, ⟨hi, -⟩, -, hpayload⟩ := hlast _ hforged
  have hsent : ((run Link.step ({} : Link 2) (firstPass n)).step
      (.data (numbered (2 + n)) true)).sent = (List.range (2 + n + 1)).map numbered := by
    change (run Link.step ({} : Link 2) (firstPass n)).sent ++ [numbered (2 + n)] = _
    rw [sent_run, packets_firstPass, List.range_succ, List.map_append]
    rfl
  rw [hsent, List.getElem?_map, Option.map_eq_some_iff] at hi
  obtain ⟨j, -, rfl⟩ := hi
  -- padding does not change the first byte of a payload
  rcases numbered_payload j with hj | hj | hj
  · rw [hj] at hpayload
    exact absurd (List.cons.inj hpayload).1 (by decide)
  · rw [hj] at hpayload
    exact absurd (List.cons.inj hpayload).1 (by decide)
  · rw [hj] at hpayload
    exact absurd (List.cons.inj hpayload).1 (by decide)

/-- Packet 2^16 makes the decoder return a packet with number 1 and payload 6. -/
theorem forged_along_crossing :
    ¬ Along Link.step Sound ({} : Link 2) (crossing 65534).events :=
  forged_of_wrap 65534 (by decide)

end CppMeet.Weak.FecPasses
