import CppMeet.Ice.Stun
import CppMeet.Rtp.Grammar
import Mathlib.Data.List.Count

/-!
# One port for three protocols

STUN, DTLS and RTP packets arrive on one UDP port, and the first byte is meant to tell them apart:
0 to 3 for STUN, 20 to 63 for DTLS, 128 to 191 for RTP. `isStun` looks at the two top bits of the
first byte and at the magic cookie, so it also accepts first bytes from 4 to 63. The three tests
exclude each other and keep to the ranges exactly on the buffers that are not of this kind
(`unambiguous_iff`).
-/

set_option autoImplicit false

namespace CppMeet.Net.Demux

open CppMeet.Lib.Buffer CppMeet.Ice.Stun CppMeet.Rtp.Packet CppMeet.Rtp.Grammar

/-- `DtlsTransport::is_dtls`. -/
def isDtls (data : List UInt8) : Bool :=
  match data with
  | [] => false
  | first :: _ => 20 ≤ first ∧ first ≤ 63

/-- The value that `RtpPacket::parse` returns. -/
def rtpAccepts (pkt : RtpPacket) (data : List UInt8) : Bool := (pkt.parse data).any Prod.fst

/-- How many of the three tests accept the buffer. -/
def accepted (pkt : RtpPacket) (data : List UInt8) : ℕ :=
  [StunMessage.isStun data, isDtls data, rtpAccepts pkt data].count true

/-- At most one test accepts the buffer, and `is_stun` keeps to its range. -/
def Unambiguous (pkt : RtpPacket) (data : List UInt8) : Prop :=
  accepted pkt data ≤ 1 ∧
    (StunMessage.isStun data = true → ∃ first rest, data = first :: rest ∧ first ≤ 3)

/-- The buffer has the length and the cookie of a STUN message, and a first byte between the given
bounds. -/
def CookieWithFirst (lo hi : UInt8) (data : List UInt8) : Prop :=
  20 ≤ data.length ∧ readU32 data 4 = some stunMagicCookie ∧
    lo ≤ data.headD 0 ∧ data.headD 0 ≤ hi

instance (lo hi : UInt8) (data : List UInt8) : Decidable (CookieWithFirst lo hi data) :=
  inferInstanceAs (Decidable (_ ∧ _ ∧ _ ∧ _))

/-- The top two bits are clear in the bytes up to 63. -/
theorem mask_eq_zero_iff (b : UInt8) : b &&& 0xC0 = 0 ↔ b ≤ 63 := by
  have hall : ∀ n < 256, (UInt8.ofNat n &&& 0xC0 = 0 ↔ UInt8.ofNat n ≤ 63) := by decide +kernel
  have hb := hall b.toNat b.toNat_lt
  rwa [UInt8.ofNat_toNat] at hb

/-- `is_stun` accepts first bytes up to 63. -/
theorem isStun_iff (data : List UInt8) :
    StunMessage.isStun data = true ↔ CookieWithFirst 0 63 data := by
  rw [StunMessage.isStun, decide_eq_true_iff, mask_eq_zero_iff, CookieWithFirst]
  have hzero : 0 ≤ data.headD 0 := UInt8.zero_le
  tauto

theorem isDtls_iff (data : List UInt8) :
    isDtls data = true ↔ 20 ≤ data.headD 0 ∧ data.headD 0 ≤ 63 := by
  cases data with
  | nil => decide
  | cons first rest => exact decide_eq_true_iff

/-- `parse` accepts only first bytes with the version bits of version 2. -/
theorem rtpAccepts_first {pkt : RtpPacket} {data : List UInt8} (h : rtpAccepts pkt data = true) :
    128 ≤ data.headD 0 := by
  by_cases hL : ∃ L : Layout, data = L.bytes
  · obtain ⟨L, rfl⟩ := hL
    have hversion := (firstByte_fields L.padding L.extension.isSome L.csrc_le).1
    have hall : ∀ n < 256, (UInt8.ofNat n >>> 6) &&& 0x03 = 2 → 128 ≤ UInt8.ofNat n := by
      decide +kernel
    have hfirst := hall (firstByte L.padding L.extension.isSome L.csrc.length).toNat
      (UInt8.toNat_lt _)
    rw [UInt8.ofNat_toNat] at hfirst
    exact hfirst hversion
  · rw [rtpAccepts, parse_eq_false hL] at h
    cases h

/-- A buffer that RTP accepts is accepted by neither of the others. -/
theorem not_rtpAccepts {pkt : RtpPacket} {data : List UInt8} (h : data.headD 0 ≤ 63) :
    rtpAccepts pkt data = false := by
  rw [← Bool.not_eq_true]
  intro hrtp
  have hle : (128 : UInt8) ≤ 63 := UInt8.le_trans (rtpAccepts_first hrtp) h
  revert hle
  decide

/-- Two tests accept one buffer exactly when a STUN message starts with a DTLS byte. -/
theorem accepted_le_one_iff (pkt : RtpPacket) (data : List UInt8) :
    accepted pkt data ≤ 1 ↔ ¬ CookieWithFirst 20 63 data := by
  -- the range of `is_dtls` lies within the one that `is_stun` accepts
  have hboth : CookieWithFirst 20 63 data ↔
      StunMessage.isStun data = true ∧ isDtls data = true := by
    have hzero : 0 ≤ data.headD 0 := UInt8.zero_le
    rw [isStun_iff, isDtls_iff, CookieWithFirst, CookieWithFirst]
    tauto
  -- version 2 excludes both
  have hstun : StunMessage.isStun data = true → rtpAccepts pkt data = false := fun h =>
    not_rtpAccepts ((isStun_iff data).1 h).2.2.2
  have hdtls : isDtls data = true → rtpAccepts pkt data = false := fun h =>
    not_rtpAccepts ((isDtls_iff data).1 h).2
  rw [hboth, accepted]
  cases hs : StunMessage.isStun data with
  | true =>
      rw [hstun hs]
      cases isDtls data with
      | true => simp
      | false => simp
  | false =>
      cases hd : isDtls data with
      | true =>
          rw [hdtls hd]
          simp
      | false =>
          cases rtpAccepts pkt data with
          | true => simp
          | false => simp

/-- The tests are unambiguous exactly on the buffers that are no STUN message with a first byte from
4 to 63. -/
theorem unambiguous_iff (pkt : RtpPacket) (data : List UInt8) :
    Unambiguous pkt data ↔ ¬ CookieWithFirst 4 63 data := by
  rw [Unambiguous, accepted_le_one_iff, isStun_iff]
  constructor
  · rintro ⟨-, hrange⟩ ⟨hlen, hcookie, hlo, hhi⟩
    obtain ⟨first, rest, rfl, hfirst⟩ := hrange ⟨hlen, hcookie, UInt8.zero_le, hhi⟩
    have hle : (4 : UInt8) ≤ 3 := UInt8.le_trans hlo hfirst
    revert hle
    decide
  · intro hno
    refine ⟨fun ⟨hlen, hcookie, hlo, hhi⟩ => ?_, fun ⟨hlen, hcookie, _, hhi⟩ => ?_⟩
    · exact hno ⟨hlen, hcookie, UInt8.le_trans (by decide) hlo, hhi⟩
    · cases data with
      | nil => simp at hlen
      | cons first rest =>
          refine ⟨first, rest, rfl, ?_⟩
          rw [UInt8.le_iff_toNat_le]
          by_contra hgt
          refine hno ⟨hlen, hcookie, ?_, hhi⟩
          rw [UInt8.le_iff_toNat_le]
          exact Nat.lt_of_not_le hgt

/-- Twenty bytes with the cookie and the first byte of a DTLS record are accepted twice. -/
theorem not_unambiguous_dtlsByte :
    ¬ Unambiguous {}
      ([20, 0, 0, 0, 0x21, 0x12, 0xA4, 0x42] ++ List.replicate 12 0 : List UInt8) := by
  rintro ⟨hone, -⟩
  revert hone
  decide

end CppMeet.Net.Demux
