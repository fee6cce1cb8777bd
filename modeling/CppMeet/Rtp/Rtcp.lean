import CppMeet.Lib.Buffer
import CppMeet.Lib.SortUnique

/-!
# RTCP packets

The sender report (PT 200) and the NACK packet (RTPFB, PT 205, FMT 1). The `serialize` of a NACK
packs the lost sequence numbers into pairs of a first number and a bitmask of the sixteen numbers
after it; `parse` unpacks them. `parse` returns no value when it reads outside of the buffer.
-/

set_option autoImplicit false

namespace CppMeet.Rtp.Rtcp

open CppMeet.Lib.BigEndian CppMeet.Lib.Buffer CppMeet.Lib.SortUnique

/-- A sender report without report blocks. -/
structure RtcpSR where
  ssrc : UInt32
  ntpSec : UInt32
  ntpFrac : UInt32
  rtpTimestamp : UInt32
  packetCount : UInt32
  octetCount : UInt32
  deriving DecidableEq, Repr

namespace RtcpSR

variable (sr : RtcpSR)

/-- The length field counts the words after the first one. -/
def serialize : List UInt8 :=
  [0x80, 200] ++ put16 6 ++ put32 sr.ssrc ++ put32 sr.ntpSec ++ put32 sr.ntpFrac ++
    put32 sr.rtpTimestamp ++ put32 sr.packetCount ++ put32 sr.octetCount

theorem serialize_length : sr.serialize.length = 28 := rfl

/-- The SSRC of the sender stands behind the common header. -/
theorem readU32_serialize : readU32 sr.serialize 4 = some sr.ssrc := by
  have hread := readU32_put32 ([0x80, 200] ++ put16 6) (put32 sr.ntpSec ++ put32 sr.ntpFrac ++
    put32 sr.rtpTimestamp ++ put32 sr.packetCount ++ put32 sr.octetCount) sr.ssrc
  simp only [serialize, List.append_assoc] at hread ⊢
  exact hread

/-- Whether the bytes are accepted, and the object after the call. -/
def parse (data : List UInt8) : Option (Bool × RtcpSR) :=
  if data.length < 28 then return (false, sr)
  else do
    let first : UInt8 ← data[0]?
    if (first >>> 6) &&& 0x03 ≠ 2 then return (false, sr)
    else
      let pt : UInt8 ← data[1]?
      if pt ≠ 200 then return (false, sr)
      else
        let lengthWords ← readU16 data 2
        let expected := (lengthWords.toNat + 1) * 4
        if data.length < expected then return (false, sr)
        else
          let ssrc ← readU32 data 4
          let ntpSec ← readU32 data 8
          let ntpFrac ← readU32 data 12
          let rtpTimestamp ← readU32 data 16
          let packetCount ← readU32 data 20
          let octetCount ← readU32 data 24
          return (true, { ssrc, ntpSec, ntpFrac, rtpTimestamp, packetCount, octetCount })

end RtcpSR

/-- A list of lost sequence numbers of one source. -/
structure RtcpNack where
  senderSsrc : UInt32
  mediaSsrc : UInt32
  lostSeqs : List UInt16
  deriving DecidableEq, Repr

/-- A lost sequence number, and a mask of the sixteen behind it. -/
structure NackPair where
  fsn : UInt16
  blp : UInt16
  deriving DecidableEq, Repr

/-- The distance from `fsn`, as an `int`. -/
def diff (fsn s : UInt16) : ℤ := (s.toNat : ℤ) - (fsn.toNat : ℤ)

/-- The loop that packs the numbers after `fsn` into the bitmask. -/
def blpLoop (fsn : UInt16) : UInt16 → List UInt16 → UInt16
  | blp, [] => blp
  | blp, s :: seqs =>
      if 1 ≤ diff fsn s ∧ diff fsn s ≤ 16 then
        blpLoop fsn (blp ||| UInt16.ofNat (1 <<< (diff fsn s - 1).toNat)) seqs
      else if 16 < diff fsn s then blp
      -- not reached on sorted numbers
      else blpLoop fsn blp seqs

/-- The loop that skips the numbers covered by the pair of `fsn`. -/
def skipCovered (fsn : UInt16) : List UInt16 → List UInt16
  | [] => []
  | s :: seqs => if diff fsn s ≤ 16 then skipCovered fsn seqs else s :: seqs

theorem length_skipCovered_le (fsn : UInt16) (seqs : List UInt16) :
    (skipCovered fsn seqs).length ≤ seqs.length := by
  induction seqs with
  | nil => exact Nat.le_refl 0
  | cons s seqs ih =>
      rw [skipCovered]
      split
      · exact Nat.le_succ_of_le ih
      · exact Nat.le_refl _

/-- The loop over the sorted numbers. -/
def compress : List UInt16 → List NackPair
  | [] => []
  | fsn :: seqs => ⟨fsn, blpLoop fsn 0 seqs⟩ :: compress (skipCovered fsn seqs)
termination_by seqs => seqs.length
decreasing_by exact Nat.lt_succ_of_le (length_skipCovered_le fsn seqs)

namespace RtcpNack

variable (nack : RtcpNack)

/-- The pairs of the sorted numbers without repetitions. -/
def pairs : List NackPair := compress (sortUnique nack.lostSeqs)

/-- The four bytes of a pair. -/
def pairBytes (p : NackPair) : List UInt8 := put16 p.fsn ++ put16 p.blp

/-- A feedback packet: its header with the length in words, the two sources, and the pairs. -/
def serialize : List UInt8 :=
  let total := 12 + nack.pairs.length * 4
  [0x81, 205] ++ put16 (UInt16.ofNat (total / 4 - 1)) ++ put32 nack.senderSsrc ++
    put32 nack.mediaSsrc ++ nack.pairs.flatMap pairBytes

/-- The numbers that one pair stands for, in the order in which `parse` appends them. -/
def expandPair (fsn blp : UInt16) : List UInt16 :=
  fsn :: ((List.range 16).filter fun i => blp.toNat &&& 1 <<< i ≠ 0).map fun i =>
    UInt16.ofNat (fsn.toNat + i + 1)

/-- The loop over the pairs between `offset` and `expected`. -/
def parsePairs (data : List UInt8) (expected offset : ℕ) (lostSeqs : List UInt16) :
    Option (List UInt16) :=
  if offset + 4 ≤ expected then do
    let fsn ← readU16 data offset
    let blp ← readU16 data (offset + 2)
    parsePairs data expected (offset + 4) (lostSeqs ++ expandPair fsn blp)
  else return lostSeqs
termination_by expected - offset

/-- The flag tells whether the bytes are a NACK; the object is the one after the call. -/
def parse (data : List UInt8) : Option (Bool × RtcpNack) :=
  if data.length < 12 then return (false, nack)
  else do
    let first : UInt8 ← data[0]?
    if (first >>> 6) &&& 0x03 ≠ 2 then return (false, nack)
    -- the feedback message type
    else if first &&& 0x1F ≠ 1 then return (false, nack)
    else
      let pt : UInt8 ← data[1]?
      if pt ≠ 205 then return (false, nack)
      else
        let lengthWords ← readU16 data 2
        let expected := (lengthWords.toNat + 1) * 4
        if data.length < expected then return (false, nack)
        else
          let senderSsrc ← readU32 data 4
          let mediaSsrc ← readU32 data 8
          let lostSeqs ← parsePairs data expected 12 []
          return (true, { senderSsrc, mediaSsrc, lostSeqs })

end RtcpNack

end CppMeet.Rtp.Rtcp
