import CppMeet.Rtp.Packet

/-!
# The H.264 packetizer

`packetize` turns a NAL unit into RTP packets, one packet for a unit that fits and FU-A fragments
for a longer one. The sequence counter is passed in and returned. `packetizeAll` calls it for one
unit after the other with a shared counter and a timestamp for each.
-/

set_option autoImplicit false

namespace CppMeet.Video.Packetizer

open CppMeet.Rtp.Packet

/-- The bytes of a unit, with its start code if it has one. -/
structure NalUnit where
  data : List UInt8

/-- The largest payload of a packet. -/
def maxRtpPayload : ℕ := 1200

/-- The unit without its Annex B start code. -/
def skipStartCode (data : List UInt8) : List UInt8 :=
  if 4 ≤ data.length ∧ data.getD 0 0 = 0 ∧ data.getD 1 0 = 0 ∧ data.getD 2 0 = 0 ∧
      data.getD 3 0 = 1 then data.drop 4
  else if 3 ≤ data.length ∧ data.getD 0 0 = 0 ∧ data.getD 1 0 = 0 ∧ data.getD 2 0 = 1 then
    data.drop 3
  else data

/-- The FU header: the S bit, the E bit and the type of the unit. -/
def fuHeader (nalType : UInt8) (first last : Bool) : UInt8 :=
  let fuHeader := nalType
  let fuHeader := if first then fuHeader ||| 0x80 else fuHeader
  if last then fuHeader ||| 0x40 else fuHeader

section

variable (payloadType : UInt8) (timestamp ssrc : UInt32)

/-- The loop of `make_fua_packets` over the bytes that remain. -/
def fuaLoop (fuIndicator nalType : UInt8) (src : List UInt8) (first : Bool) (seq : UInt16) :
    List RtpPacket × UInt16 :=
  if src = [] then ([], seq)
  else
    -- two bytes are the FU indicator and the FU header
    let chunk := min src.length (maxRtpPayload - 2)
    let last := decide (chunk = src.length)
    let payload := fuIndicator :: fuHeader nalType first last :: src.take chunk
    let pkt := RtpPacket.build payloadType seq timestamp ssrc payload last
    let rest := fuaLoop fuIndicator nalType (src.drop chunk) false (seq + 1)
    (pkt :: rest.1, rest.2)
termination_by src.length
decreasing_by
  rename_i h
  have hpos : 0 < src.length := List.length_pos_iff.2 h
  rw [List.length_drop, maxRtpPayload]
  omega

/-- A NAL unit that does not fit a packet, in fragments. -/
def makeFuaPackets (nalData : List UInt8) (seq : UInt16) : List RtpPacket × UInt16 :=
  let nalHeader := nalData.headD 0
  let fuIndicator := (nalHeader &&& 0xE0) ||| 28
  let nalType := nalHeader &&& 0x1F
  fuaLoop payloadType timestamp ssrc fuIndicator nalType nalData.tail true seq

/-- The packets of a NAL unit, and the sequence number behind them. -/
def packetize (nal : NalUnit) (seq : UInt16) : List RtpPacket × UInt16 :=
  let nalData := skipStartCode nal.data
  if nalData.length = 0 then ([], seq)
  else if nalData.length ≤ maxRtpPayload then
    ([RtpPacket.build payloadType seq timestamp ssrc nalData true], seq + 1)
  else makeFuaPackets payloadType timestamp ssrc nalData seq

end

/-- The packets of each unit, which has the timestamp of its own call, and the counter at the
end. -/
def packetizeAll (payloadType : UInt8) (ssrc : UInt32) :
    List (UInt32 × NalUnit) → UInt16 → List (List RtpPacket) × UInt16
  | [], seq => ([], seq)
  | (timestamp, nal) :: nals, seq =>
      let pkts := packetize payloadType timestamp ssrc nal seq
      let rest := packetizeAll payloadType ssrc nals pkts.2
      (pkts.1 :: rest.1, rest.2)

end CppMeet.Video.Packetizer
