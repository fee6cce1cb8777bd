import CppMeet.Ice.Grammar
import CppMeet.Rtp.Grammar
import CppMeet.Rtp.RtcpExtent

/-!
# Objects after a failed `parse`

The decoders of RTP packets, sender reports and NACKs store what they have read behind their last
check. `StunMessage::parse` stores the type and the transaction id and clears the attributes behind
the checks of the header, and appends the attributes one by one; a message whose rest is faulty
(`Fault`) leaves the object with these. So a buffer that leaves every object alone is one whose
header is rejected or that is well formed (`stun_untouched_forall_iff`).
-/

set_option autoImplicit false

namespace CppMeet.Net.FailedDecoding

open CppMeet.Lib.Buffer CppMeet.Rtp.Packet CppMeet.Rtp.Rtcp
open CppMeet.Ice.Stun CppMeet.Ice.Grammar

/-- The checks that `StunMessage::parse` makes before it stores anything. -/
structure GoodHeader (data : List UInt8) : Prop where
  complete : 20 ≤ data.length
  cookie : readU32 data 4 = some stunMagicCookie
  topBits : ∃ first, data[0]? = some first ∧ first &&& 0xC0 = 0

/-- The object has the type and the transaction id of the header and, where the declared bytes are
all there, the attributes in front of one that reaches over their end. -/
structure Fault (data : List UInt8) (m : StunMessage) : Prop where
  header : GoodHeader data
  type : readU16 data 0 = some m.type.code
  transactionId : readVector data 8 12 = some m.transactionId
  attrs : ∃ msgLen, readU16 data 2 = some msgLen ∧
    (data.length < 20 + msgLen.toNat ∧ m.attrs = [] ∨
      20 + msgLen.toNat ≤ data.length ∧ Overrun ((data.drop 20).take msgLen.toNat) m.attrs)

/-! ## The three kinds of buffers -/

variable (m : StunMessage)

/-- A rejected header leaves the object alone. -/
theorem parse_of_not_goodHeader {data : List UInt8} (h : ¬ GoodHeader data) :
    m.parse data = some (false, m) := by
  by_cases hshort : data.length < 20
  · exact (outcome_of_short m hshort).returns
  have hlen : (data.take 20).length = 20 := List.length_take_of_le (Nat.not_lt.1 hshort)
  obtain ⟨first, type, msgLen, cookie, tid, hhdr⟩ := exists_fields hlen
  have hdata := hhdr.append hlen (data.drop 20)
  have hparse := parse_of_bad_header m hhdr hlen (data.drop 20)
  rw [List.take_append_drop] at hdata hparse
  apply hparse
  by_contra hgood
  rw [not_or, not_not, not_not] at hgood
  exact h ⟨Nat.not_lt.1 hshort, hgood.1 ▸ hdata.cookie, first, hdata.first, hgood.2⟩

/-- A fault behind the header leaves its own object, whatever was there. -/
theorem parse_of_fault {data : List UInt8} {m' : StunMessage} (h : Fault data m') :
    m.parse data = some (false, m') := by
  have hsize := h.header.complete
  have hlen : (data.take 20).length = 20 := List.length_take_of_le hsize
  obtain ⟨first, type, msgLen, cookie, tid, hhdr⟩ := exists_fields hlen
  have hdata := hhdr.append hlen (data.drop 20)
  have hparse := parse_of_header m hhdr hlen (data.drop 20)
  rw [List.take_append_drop] at hdata hparse
  -- the object holds what the header declares
  obtain ⟨first', hfirst', hclear⟩ := h.header.topBits
  obtain rfl := Option.some.inj (hdata.first.symm.trans hfirst')
  obtain ⟨⟨code⟩, tid', attrs⟩ := m'
  obtain rfl := Option.some.inj (hdata.type.symm.trans h.type)
  obtain rfl := Option.some.inj (hdata.tid.symm.trans h.transactionId)
  obtain ⟨msgLen', hmsgLen, hrest⟩ := h.attrs
  obtain rfl := Option.some.inj (hdata.msgLen.symm.trans hmsgLen)
  rw [hparse (Option.some.inj (hdata.cookie.symm.trans h.header.cookie)) hclear, List.length_drop]
  rcases hrest with ⟨hcut, rfl⟩ | ⟨hcomplete, hover⟩
  · rw [if_pos (by omega)]
  · have hbody : ((data.drop 20).take msgLen.toNat).length = msgLen.toNat :=
      List.length_take_of_le (by rw [List.length_drop]; omega)
    have hloop := hover.parseAttrs (data.take 20) ((data.drop 20).drop msgLen.toNat) []
    rw [hlen, hbody, List.take_append_drop, List.take_append_drop, List.nil_append] at hloop
    rw [if_neg (by omega), hloop]
    rfl

/-- Behind a good header there is a message of the grammar or a fault. -/
theorem accepted_or_fault {data : List UInt8} (h : GoodHeader data) :
    (∃ msgLen attrs, Accepted data msgLen attrs) ∨ ∃ m', Fault data m' := by
  obtain ⟨type, htype⟩ := exists_readU16 (show 0 + 2 ≤ data.length from Nat.le_trans (by decide)
    h.complete)
  obtain ⟨msgLen, hmsgLen⟩ := exists_readU16 (show 2 + 2 ≤ data.length from Nat.le_trans (by decide)
    h.complete)
  obtain ⟨tid, htid⟩ := exists_readVector (show 8 + 12 ≤ data.length from h.complete)
  by_cases hcut : data.length < 20 + msgLen.toNat
  · exact Or.inr ⟨⟨⟨type⟩, tid, []⟩, h, htype, htid, msgLen, hmsgLen, Or.inl ⟨hcut, rfl⟩⟩
  have hcomplete := Nat.not_lt.1 hcut
  obtain ⟨attrs, hbody | hover⟩ := body_or_overrun ((data.drop 20).take msgLen.toNat)
  · exact Or.inl ⟨msgLen, attrs, hmsgLen, hcomplete, h.topBits, h.cookie, hbody⟩
  · exact Or.inr ⟨⟨⟨type⟩, tid, attrs⟩, h, htype, htid, msgLen, hmsgLen,
      Or.inr ⟨hcomplete, hover⟩⟩

/-! ## Failed calls -/

/-- A call that fails leaves an RTP packet alone. -/
theorem rtp_untouched {pkt after : RtpPacket} {data : List UInt8}
    (h : pkt.parse data = some (false, after)) : after = pkt := by
  by_cases hL : ∃ L : Rtp.Grammar.Layout, data = L.bytes
  · obtain ⟨L, rfl⟩ := hL
    rw [L.parse_bytes] at h
    exact absurd (congrArg Prod.fst (Option.some.inj h)).symm Bool.false_ne_true
  · rw [Rtp.Grammar.parse_eq_false hL] at h
    exact (congrArg Prod.snd (Option.some.inj h)).symm

/-- The buffers whose failed decoding leaves this object alone. -/
theorem stun_untouched_iff (data : List UInt8) :
    (∀ after, m.parse data = some (false, after) → after = m) ↔
      ¬ GoodHeader data ∨ (∃ msgLen attrs, Accepted data msgLen attrs) ∨ Fault data m := by
  constructor
  · intro hkeep
    by_cases hgood : GoodHeader data
    · refine Or.inr ((accepted_or_fault hgood).imp_right ?_)
      rintro ⟨m', hfault⟩
      rwa [hkeep m' (parse_of_fault m hfault)] at hfault
    · exact Or.inl hgood
  · rintro (hbad | haccepted | hfault) after hfail
    · rw [parse_of_not_goodHeader m hbad] at hfail
      exact (congrArg Prod.snd (Option.some.inj hfail)).symm
    · -- a message of the grammar does not fail
      obtain ⟨ok, result, houtcome⟩ := parse_outcome m data
      have htrue := houtcome.accepts.2 haccepted
      rw [houtcome.returns, htrue] at hfail
      exact absurd (congrArg Prod.fst (Option.some.inj hfail)).symm Bool.false_ne_true
    · rw [parse_of_fault m hfault] at hfail
      exact (congrArg Prod.snd (Option.some.inj hfail)).symm

/-- A buffer leaves every object alone when its decoding fails exactly if its header is rejected or
it is well formed. -/
theorem stun_untouched_forall_iff (data : List UInt8) :
    (∀ m after : StunMessage, m.parse data = some (false, after) → after = m) ↔
      ¬ GoodHeader data ∨ ∃ msgLen attrs, Accepted data msgLen attrs := by
  rw [forall_congr' fun m => stun_untouched_iff m data]
  constructor
  · intro hall
    by_contra hneither
    rw [not_or, not_not] at hneither
    obtain ⟨hgood, hrejected⟩ := hneither
    obtain ⟨code, hcode⟩ := exists_readU16 (show 0 + 2 ≤ data.length from Nat.le_trans (by decide)
      hgood.complete)
    -- an object of another type than the header's
    rcases hall { type := ⟨code + 1⟩ } with hbad | haccepted | hfault
    · exact hbad hgood
    · exact hrejected haccepted
    · have hsame := Option.some.inj (hcode.symm.trans hfault.type)
      exact absurd hsame.symm (by simp)
  · intro h m
    exact h.imp_right Or.inl

/-- A call that fails leaves the object of an RTP packet, a sender report and a NACK as it was. The
object of a STUN message stays as it was in every failed call on a buffer exactly when the header is
rejected, or the message is well formed, or the object happened to hold what is stored before the
fault. -/
theorem failed_parse_untouched (pkt : RtpPacket) (sr : RtcpSR) (nack : RtcpNack)
    (data : List UInt8) :
    (∀ after, pkt.parse data = some (false, after) → after = pkt) ∧
      (∀ after, sr.parse data = some (false, after) → after = sr) ∧
      (∀ after, nack.parse data = some (false, after) → after = nack) ∧
      ((∀ after, m.parse data = some (false, after) → after = m) ↔
        ¬ GoodHeader data ∨ (∃ msgLen attrs, Accepted data msgLen attrs) ∨ Fault data m) :=
  ⟨fun _ => rtp_untouched, fun _ => Rtp.RtcpExtent.sized_sr.eq_of_false,
    fun _ => Rtp.RtcpExtent.sized_nack.eq_of_false, stun_untouched_iff m data⟩

/-- A header that declares four bytes more than there are replaces the type and the transaction id,
and the attributes are lost. -/
theorem failed_parse_overwrites :
    ¬ ∀ (pkt : RtpPacket) (sr : RtcpSR) (nack : RtcpNack) (m : StunMessage) (data : List UInt8),
      (∀ after, pkt.parse data = some (false, after) → after = pkt) ∧
        (∀ after, sr.parse data = some (false, after) → after = sr) ∧
        (∀ after, nack.parse data = some (false, after) → after = nack) ∧
        ∀ after, m.parse data = some (false, after) → after = m := by
  intro hall
  have hkeep := (hall {} ⟨1, 2, 3, 4, 5, 6⟩ ⟨1, 2, []⟩
    (StunMessage.addUint32Attr {} .priority 7)
    ([0x01, 0x01, 0, 4, 0x21, 0x12, 0xA4, 0x42] ++ List.replicate 12 9)).2.2.2
    ⟨.bindingResponse, Vector.replicate 12 9, []⟩ (by decide)
  exact absurd (congrArg StunMessage.attrs hkeep) (by decide)

end CppMeet.Net.FailedDecoding
