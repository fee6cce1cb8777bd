import CppMeet.Lib.Buffer

/-!
# RTP packets

`RtpPacket` holds the raw bytes of a packet and the offset of its payload. The getters read
big-endian fields from the bytes and return 0 where the packet is too short; `build` writes a
packet without extension and contributing sources. `parse` has no result when it reads outside of
the given bytes.
-/

set_option autoImplicit false

namespace CppMeet.Rtp.Packet

open CppMeet.Lib.BigEndian CppMeet.Lib.Buffer

/-- The bytes of a packet, and where its payload starts. -/
structure RtpPacket where
  buf : List UInt8 := []
  payloadOffset : ℕ := 0
  deriving DecidableEq, Repr

/-- The length of the fixed header, `kRtpMinHeaderLen`. -/
def rtpMinHeaderLen : ℕ := 12

namespace RtpPacket

/-- `a` is newer than `b`: `(int16_t)(a - b) > 0`. -/
def seqGt (a b : UInt16) : Bool := decide ((a - b).toInt16 > 0)

/-- A packet without padding, extension and contributing sources. -/
def build (payloadType : UInt8) (seq : UInt16) (timestamp ssrc : UInt32) (payload : List UInt8)
    (marker : Bool := false) : RtpPacket where
  buf :=
    [0x80, (if marker then 0x80 else 0x00) ||| (payloadType &&& 0x7F)] ++ put16 seq ++
      put32 timestamp ++ put32 ssrc ++ payload
  payloadOffset := rtpMinHeaderLen

variable (pkt : RtpPacket)

/-- Whether the bytes are accepted, and the object after the call, which a rejection leaves
alone. -/
def parse (data : List UInt8) : Option (Bool × RtpPacket) :=
  if data.length < rtpMinHeaderLen then return (false, pkt)
  else do
    let first : UInt8 ← data[0]?
    if (first >>> 6) &&& 0x03 ≠ 2 then return (false, pkt)
    else
      let headerLen := rtpMinHeaderLen + (first &&& 0x0F).toNat * 4
      if data.length < headerLen then return (false, pkt)
      else if (first >>> 4) &&& 0x01 ≠ 0 then
        if headerLen + 4 > data.length then return (false, pkt)
        else
          -- the length of an extension counts words
          let extLen ← readU16 data (headerLen + 2)
          let offset := headerLen + (4 + extLen.toNat * 4)
          if offset > data.length then return (false, pkt)
          else return (true, ⟨data, offset⟩)
      else return (true, ⟨data, headerLen⟩)

/-- The top two bits of the first byte. -/
def version : UInt8 :=
  if pkt.buf.length < 1 then 0 else (pkt.buf.getD 0 0 >>> 6) &&& 0x03

/-- The padding bit. -/
def padding : Bool :=
  if pkt.buf.length < 1 then false else (pkt.buf.getD 0 0 >>> 5) &&& 0x01 ≠ 0

/-- The extension bit. -/
def extension : Bool :=
  if pkt.buf.length < 1 then false else (pkt.buf.getD 0 0 >>> 4) &&& 0x01 ≠ 0

/-- How many contributing sources there are. -/
def cc : UInt8 :=
  if pkt.buf.length < 1 then 0 else pkt.buf.getD 0 0 &&& 0x0F

/-- The top bit of the second byte. -/
def marker : Bool :=
  if pkt.buf.length < 2 then false else (pkt.buf.getD 1 0 >>> 7) &&& 0x01 ≠ 0

/-- The low seven bits of the second byte. -/
def payloadType : UInt8 :=
  if pkt.buf.length < 2 then 0 else pkt.buf.getD 1 0 &&& 0x7F

/-- The sequence number; like the other fields it is 0 for a packet that is too short. -/
def sequence : UInt16 :=
  if pkt.buf.length < 4 then 0 else be16 (pkt.buf.getD 2 0) (pkt.buf.getD 3 0)

/-- The timestamp. -/
def timestamp : UInt32 :=
  if pkt.buf.length < 8 then 0
  else be32 (pkt.buf.getD 4 0) (pkt.buf.getD 5 0) (pkt.buf.getD 6 0) (pkt.buf.getD 7 0)

/-- The synchronization source. -/
def ssrc : UInt32 :=
  if pkt.buf.length < 12 then 0
  else be32 (pkt.buf.getD 8 0) (pkt.buf.getD 9 0) (pkt.buf.getD 10 0) (pkt.buf.getD 11 0)

/-- The pointer `payload()`, as an index into the bytes; `none` is `nullptr`. -/
def payloadPtr : Option ℕ :=
  if pkt.payloadOffset ≥ pkt.buf.length then none else some pkt.payloadOffset

/-- The bytes from the payload offset on. -/
def payloadSize : ℕ :=
  if pkt.payloadOffset ≥ pkt.buf.length then 0 else pkt.buf.length - pkt.payloadOffset

/-- The `payload_size()` bytes from `payload()` on; none when the offset is not inside the
packet. -/
def payload : List UInt8 := pkt.buf.drop pkt.payloadOffset

section Build

variable (pt : UInt8) (seq : UInt16) (ts ssrc : UInt32) (bytes : List UInt8) (m : Bool)

@[simp] theorem build_sequence : (build pt seq ts ssrc bytes m).sequence = seq :=
  be16_bytes seq

@[simp] theorem build_timestamp : (build pt seq ts ssrc bytes m).timestamp = ts :=
  be32_bytes ts

/-- The marker is the top bit of the second byte. -/
theorem markerBit_eq (m : Bool) (pt : UInt8) :
    (((if m then 0x80 else 0x00) ||| (pt &&& 0x7F)) >>> 7) &&& 0x01 =
      if m then (1 : UInt8) else 0 := by
  have hbyte : ∀ n < 256, ∀ m : Bool,
      (((if m then 0x80 else 0x00) ||| (UInt8.ofNat n &&& 0x7F)) >>> 7) &&& 0x01 =
        if m then (1 : UInt8) else 0 := by
    decide +kernel
  have hpt := hbyte pt.toNat pt.toNat_lt m
  rwa [UInt8.ofNat_toNat] at hpt

@[simp] theorem build_marker : (build pt seq ts ssrc bytes m).marker = m := by
  have hbit : (build pt seq ts ssrc bytes m).marker =
      decide ((((if m then 0x80 else 0x00) ||| (pt &&& 0x7F)) >>> 7) &&& 0x01 ≠ (0 : UInt8)) := rfl
  rw [hbit, markerBit_eq]
  cases m with
  | true => rfl
  | false => rfl

theorem typeBits_eq (m : Bool) (pt : UInt8) :
    ((if m then 0x80 else 0x00) ||| (pt &&& 0x7F)) &&& 0x7F = pt &&& 0x7F := by
  have hbyte : ∀ n < 256, ∀ m : Bool,
      ((if m then 0x80 else 0x00) ||| (UInt8.ofNat n &&& 0x7F)) &&& 0x7F =
        UInt8.ofNat n &&& 0x7F := by
    decide +kernel
  have hpt := hbyte pt.toNat pt.toNat_lt m
  rwa [UInt8.ofNat_toNat] at hpt

@[simp] theorem build_payloadType : (build pt seq ts ssrc bytes m).payloadType = pt &&& 0x7F :=
  typeBits_eq m pt

@[simp] theorem build_ssrc : (build pt seq ts ssrc bytes m).ssrc = ssrc :=
  be32_bytes ssrc

@[simp] theorem build_payload : (build pt seq ts ssrc bytes m).payload = bytes := rfl

end Build

end RtpPacket

/-! ## Packets known by their numbers -/

universe u

/-- Packets with a sequence number. -/
class Sequenced (P : Type u) where
  seqOf : P → UInt16

export Sequenced (seqOf)

instance : Sequenced RtpPacket := ⟨RtpPacket.sequence⟩

/-- A packet whose sequence number is an unbounded number modulo 2^16. -/
structure Numbered where
  number : ℤ
  pkt : RtpPacket
  sequence_eq : pkt.sequence = .ofInt number

instance : Sequenced Numbered := ⟨fun p => p.pkt.sequence⟩

/-- A numbered packet is sent under its number modulo 2^16. -/
theorem Numbered.sequence_ofInt (p : Numbered) : seqOf p = .ofInt p.number := p.sequence_eq

/-- A minimal packet with the given number. -/
def Numbered.ofNumber (n : ℤ) : Numbered where
  number := n
  pkt := .build 96 (.ofInt n) 0 0 []
  sequence_eq := RtpPacket.build_sequence _ _ _ _ _ _

end CppMeet.Rtp.Packet
