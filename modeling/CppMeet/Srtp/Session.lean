import CppMeet.Lib.BigEndian
import Mathlib.Data.Fin.VecNotation
import Mathlib.Logic.Function.Iterate
import Mathlib.Data.List.Range

/-!
# SRTP sessions

The AES-CM-128-HMAC-SHA1-80 session. AES and HMAC-SHA1 are arbitrary keyed functions (`Crypto`).
`protect` returns, next to the packet, the counter blocks it handed to AES, in order; the source
does not keep them.

`aesCmXor_counters` lists the counter blocks of one call: the initial block of `buildAesCmIv`,
incremented `0, 1, 2, …` times, one for every 16 bytes begun. The SSRC, the packet index and the
number of increments lie in different bytes of a block, so up to 2^16 blocks a packet no two of
them meet (`counterAt_injective`).
-/

set_option autoImplicit false

namespace CppMeet.Srtp.Session

open CppMeet.Lib.BigEndian

/-- An AES block. -/
abbrev Block := Fin 16 → UInt8

/-- The primitives of the crypto library. -/
structure Crypto where
  aesEncrypt : (key : Fin 16 → UInt8) → Block → Block
  hmacSha1 : (key data : List UInt8) → Fin 20 → UInt8

/-- The keys, the direction and the rollover counter of a session. -/
structure SrtpSession where
  masterKey : Fin 16 → UInt8
  masterSalt : Fin 14 → UInt8
  isSend : Bool
  roc : UInt32

/-- `init` overwrites every field. -/
def init (key : Fin 16 → UInt8) (salt : Fin 14 → UInt8) (isSend : Bool) : SrtpSession where
  masterKey := key
  masterSalt := salt
  isSend := isSend
  roc := 0

/-- The initial counter block. `index` is a 48-bit number. -/
def buildAesCmIv (salt : Fin 14 → UInt8) (ssrc : UInt32) (index : UInt64) : Block :=
  ![salt 0, salt 1, salt 2, salt 3,
    salt 4 ^^^ ((ssrc >>> 24) &&& 0xFF).toUInt8,
    salt 5 ^^^ ((ssrc >>> 16) &&& 0xFF).toUInt8,
    salt 6 ^^^ ((ssrc >>> 8) &&& 0xFF).toUInt8,
    salt 7 ^^^ (ssrc &&& 0xFF).toUInt8,
    salt 8 ^^^ ((index >>> 40) &&& 0xFF).toUInt8,
    salt 9 ^^^ ((index >>> 32) &&& 0xFF).toUInt8,
    salt 10 ^^^ ((index >>> 24) &&& 0xFF).toUInt8,
    salt 11 ^^^ ((index >>> 16) &&& 0xFF).toUInt8,
    salt 12 ^^^ ((index >>> 8) &&& 0xFF).toUInt8,
    salt 13 ^^^ (index &&& 0xFF).toUInt8,
    0, 0]

/-- `for (; i >= 0; --i) if (++counter[i] != 0) break;` -/
def incrementFrom : ℕ → Block → Block
  | 0, counter => Function.update counter 0 (counter 0 + 1)
  | i + 1, counter =>
      let k := Fin.ofNat 16 (i + 1)
      let counter' := Function.update counter k (counter k + 1)
      if counter' k ≠ 0 then counter' else incrementFrom i counter'

/-- The big-endian increment of the counter block. -/
def increment (counter : Block) : Block := incrementFrom 15 counter

/-- The loop of `aes_cm_xor` over the bytes that are left: the bytes XORed with the keystream, and
the counter blocks encrypted. -/
def aesCmLoop (encrypt : Block → Block) (counter : Block) (buf : List UInt8) :
    List UInt8 × List Block :=
  if buf = [] then ([], [])
  else
    let keystream := encrypt counter
    let chunk := List.zipWith (· ^^^ ·) (buf.take 16) (List.ofFn keystream)
    let rest := aesCmLoop encrypt (increment counter) (buf.drop 16)
    (chunk ++ rest.1, counter :: rest.2)
termination_by buf.length
decreasing_by
  rename_i h
  have hpos : 0 < buf.length := List.length_pos_iff.2 h
  rw [List.length_drop]
  omega

/-- `aes_cm_xor`. Its `index` parameter has 32 bits. -/
def aesCmXor (c : Crypto) (s : SrtpSession) (buf : List UInt8) (ssrc index : UInt32) :
    List UInt8 × List Block :=
  let iv := buildAesCmIv s.masterSalt ssrc index.toUInt64
  aesCmLoop (c.aesEncrypt s.masterKey) iv buf

/-- The first ten bytes of the HMAC-SHA1 of `data`. -/
def hmacSha1_80 (c : Crypto) (data key : List UInt8) : List UInt8 :=
  (List.ofFn (c.hmacSha1 key data)).take 10

/-- The sequence number field of a packet of at least 12 bytes. -/
def seqOf (pkt : List UInt8) : UInt16 := be16 (pkt.getD 2 0) (pkt.getD 3 0)

/-- The SSRC field of a packet of at least 12 bytes. -/
def ssrcOf (pkt : List UInt8) : UInt32 :=
  be32 (pkt.getD 8 0) (pkt.getD 9 0) (pkt.getD 10 0) (pkt.getD 11 0)

/-- `pkt_index = ROC * 2^16 + SEQ`. -/
def pktIndex (s : SrtpSession) (seq : UInt16) : UInt64 :=
  (s.roc.toUInt64 <<< 16) ||| seq.toUInt64

/-- What a call of `protect` or `unprotect` leaves behind. -/
structure Protected where
  ok : Bool
  session : SrtpSession
  inOut : List UInt8
  counters : List Block

/-- The payload is encrypted in place and a tag appended; a packet without a header is refused. -/
def protect (c : Crypto) (s : SrtpSession) (inOut : List UInt8) : Protected :=
  if inOut.length < 12 then ⟨false, s, inOut, []⟩
  else
    -- the 48-bit index is cut to the width of the parameter
    let index := (pktIndex s (seqOf inOut)).toUInt32
    let cm := aesCmXor c s (inOut.drop 12) (ssrcOf inOut) index
    let encrypted := inOut.take 12 ++ cm.1
    let tag := hmacSha1_80 c encrypted (List.ofFn s.masterKey)
    -- the session, and with it the rollover counter, stays as it was
    ⟨true, s, encrypted ++ tag, cm.2⟩

/-- The differences of the ten bytes from offset `p` on to the tag, or-ed together. -/
def tagDiff (expected inOut : List UInt8) (p : ℕ) : UInt8 :=
  (List.range 10).foldl (fun diff i => diff ||| (expected.getD i 0 ^^^ inOut.getD (p + i) 0)) 0

/-- A packet whose tag is right loses it and is decrypted in place; another one stays as it was. -/
def unprotect (c : Crypto) (s : SrtpSession) (inOut : List UInt8) : Protected :=
  if inOut.length < 12 + 10 then ⟨false, s, inOut, []⟩
  else
    let payloadEnd := inOut.length - 10
    let expectedTag := hmacSha1_80 c (inOut.take payloadEnd) (List.ofFn s.masterKey)
    -- the buffer is left as it was received
    if tagDiff expectedTag inOut payloadEnd ≠ 0 then ⟨false, s, inOut, []⟩
    else
      let inOut := inOut.take payloadEnd
      let index := (pktIndex s (seqOf inOut)).toUInt32
      let cm := aesCmXor c s (inOut.drop 12) (ssrcOf inOut) index
      ⟨true, s, inOut.take 12 ++ cm.1, cm.2⟩

/-- The counter blocks that a sequence of `protect` calls encrypts, call by call. -/
def protectCounters (c : Crypto) : SrtpSession → List (List UInt8) → List (List Block)
  | _, [] => []
  | s, pkt :: pkts =>
      (protect c s pkt).counters :: protectCounters c (protect c s pkt).session pkts

/-! ## Counter blocks -/

/-- The counters of a buffer, one for each block of sixteen bytes begun. -/
theorem aesCmLoop_counters (encrypt : Block → Block) (counter : Block) (buf : List UInt8) :
    (aesCmLoop encrypt counter buf).2 =
      (List.range ((buf.length + 15) / 16)).map fun j => increment^[j] counter := by
  fun_induction aesCmLoop encrypt counter buf with
  | case1 counter => rfl
  | case2 counter buf hne keystream chunk rest ih =>
      have hpos : 0 < buf.length := List.length_pos_iff.2 hne
      have hblocks : (buf.length + 15) / 16 = ((buf.drop 16).length + 15) / 16 + 1 := by
        rw [List.length_drop]
        omega
      simp only [rest, ih]
      rw [hblocks, List.range_succ_eq_map, List.map_cons, List.map_map]
      simp only [Function.iterate_zero, id_eq, Function.comp_def, Function.iterate_succ]

/-- The block with `j` in its last two bytes, most significant byte first. -/
def withCounter (iv : Block) (j : ℕ) : Block :=
  Function.update (Function.update iv 14 (UInt8.ofNat (j / 256))) 15 (UInt8.ofNat j)

/-- A byte overflows at the end of its range. -/
theorem ofNat_add_one_eq_zero_iff (n : ℕ) : UInt8.ofNat n + 1 = 0 ↔ (n + 1) % 256 = 0 := by
  rw [← UInt8.toNat_inj, UInt8.toNat_add, UInt8.toNat_ofNat']
  simp only [UInt8.toNat_ofNat]
  omega

theorem ofNat_add_one (n : ℕ) : UInt8.ofNat n + 1 = UInt8.ofNat (n + 1) :=
  (UInt8.ofNat_add n 1).symm

/-- As long as the two bytes do not overflow, the increment adds one to the number in them. -/
theorem increment_withCounter (iv : Block) {j : ℕ} (hj : j + 1 < 65536) :
    increment (withCounter iv j) = withCounter iv (j + 1) := by
  have h14 : withCounter iv j 14 = UInt8.ofNat (j / 256) := rfl
  have h15 : withCounter iv j 15 = UInt8.ofNat j := rfl
  have hlast : Fin.ofNat 16 (14 + 1) = 15 := rfl
  have hprev : Fin.ofNat 16 (13 + 1) = 14 := rfl
  rw [increment, incrementFrom, hlast]
  simp only [Function.update_self, h15]
  by_cases hcarry : (j + 1) % 256 = 0
  · -- the last byte overflows and the byte before it takes the carry
    rw [if_neg (by simpa using (ofNat_add_one_eq_zero_iff j).2 hcarry), incrementFrom, hprev]
    have hne : UInt8.ofNat (j / 256) + 1 ≠ 0 := by
      rw [Ne, ofNat_add_one_eq_zero_iff]
      omega
    have h14' : Function.update (withCounter iv j) 15 (UInt8.ofNat j + 1) 14 =
        UInt8.ofNat (j / 256) := by
      rw [Function.update_of_ne (by decide), h14]
    simp only [Function.update_self, h14']
    rw [if_pos hne, ofNat_add_one, ofNat_add_one, show j / 256 + 1 = (j + 1) / 256 by omega]
    funext i
    simp only [withCounter, Function.update_apply]
    by_cases hi15 : i = 15
    · simp [hi15]
    · by_cases hi14 : i = 14 <;> simp [hi15, hi14]
  · rw [if_pos (by simpa using mt (ofNat_add_one_eq_zero_iff j).1 hcarry), ofNat_add_one]
    have hdiv : j / 256 = (j + 1) / 256 := by omega
    rw [withCounter, Function.update_idem, hdiv, ← withCounter]

/-- Within 2^16 increments only the last two bytes count. -/
theorem iterate_increment {iv : Block} (h14 : iv 14 = 0) (h15 : iv 15 = 0) {j : ℕ}
    (hj : j < 65536) : increment^[j] iv = withCounter iv j := by
  induction j with
  | zero =>
      have hiv : Function.update iv 14 (UInt8.ofNat (0 / 256)) = iv :=
        Function.update_eq_self_iff.2 h14.symm
      rw [Function.iterate_zero, id_eq, withCounter, hiv]
      exact (Function.update_eq_self_iff.2 h15.symm).symm
  | succ j ih => rw [Function.iterate_succ_apply', ih (by omega), increment_withCounter iv hj]

/-- The two counter bytes determine the number of increments. -/
theorem withCounter_inj {iv iv' : Block} {j j' : ℕ} (hj : j < 65536) (hj' : j' < 65536)
    (h : withCounter iv j = withCounter iv' j') : j = j' := by
  have hhigh := congrArg UInt8.toNat (congrFun h 14)
  have hlow := congrArg UInt8.toNat (congrFun h 15)
  change (UInt8.ofNat (j / 256)).toNat = (UInt8.ofNat (j' / 256)).toNat at hhigh
  change (UInt8.ofNat j).toNat = (UInt8.ofNat j').toNat at hlow
  simp only [UInt8.toNat_ofNat'] at hhigh hlow
  omega

/-- The counter bytes lie outside the other fourteen. -/
theorem withCounter_apply (iv : Block) (j : ℕ) {i : Fin 16} (h14 : i ≠ 14) (h15 : i ≠ 15) :
    withCounter iv j i = iv i := by
  rw [withCounter, Function.update_of_ne h15, Function.update_of_ne h14]

/-- A word widened to 64 bits keeps its four bytes. -/
theorem be32_bytes_toUInt64 (v : UInt32) :
    be32 ((v.toUInt64 >>> 24) &&& 0xFF).toUInt8 ((v.toUInt64 >>> 16) &&& 0xFF).toUInt8
      ((v.toUInt64 >>> 8) &&& 0xFF).toUInt8 (v.toUInt64 &&& 0xFF).toUInt8 = v := by
  have hv := v.toNat_lt
  rw [← UInt32.toNat_inj, be32_toNat]
  simp [Nat.shiftRight_eq_div_pow, and_255]
  omega

/-- Blocks made from different SSRCs or packet indexes differ, whatever their counters. -/
theorem eq_of_withCounter_eq {salt : Fin 14 → UInt8} {ssrc ssrc' index index' : UInt32} {j j' : ℕ}
    (h : withCounter (buildAesCmIv salt ssrc index.toUInt64) j =
      withCounter (buildAesCmIv salt ssrc' index'.toUInt64) j') :
    ssrc = ssrc' ∧ index = index' := by
  have hbyte (i : Fin 16) (h14 : i ≠ 14) (h15 : i ≠ 15) :
      buildAesCmIv salt ssrc index.toUInt64 i = buildAesCmIv salt ssrc' index'.toUInt64 i := by
    have hi := congrFun h i
    rwa [withCounter_apply _ j h14 h15, withCounter_apply _ j' h14 h15] at hi
  constructor
  · -- bytes 4 to 7 hold the SSRC, xored with the salt
    have h4 := (UInt8.xor_right_inj _).1 (hbyte 4 (by decide) (by decide))
    have h5 := (UInt8.xor_right_inj _).1 (hbyte 5 (by decide) (by decide))
    have h6 := (UInt8.xor_right_inj _).1 (hbyte 6 (by decide) (by decide))
    have h7 := (UInt8.xor_right_inj _).1 (hbyte 7 (by decide) (by decide))
    rw [← be32_bytes ssrc, h4, h5, h6, h7, be32_bytes]
  · -- bytes 10 to 13 hold the index
    have h10 := (UInt8.xor_right_inj _).1 (hbyte 10 (by decide) (by decide))
    have h11 := (UInt8.xor_right_inj _).1 (hbyte 11 (by decide) (by decide))
    have h12 := (UInt8.xor_right_inj _).1 (hbyte 12 (by decide) (by decide))
    have h13 := (UInt8.xor_right_inj _).1 (hbyte 13 (by decide) (by decide))
    rw [← be32_bytes_toUInt64 index, h10, h11, h12, h13, be32_bytes_toUInt64]

/-! ## The blocks of a call -/

/-- `counter` in iteration `j` of `aes_cm_xor`, from 0 on. -/
def counterAt (salt : Fin 14 → UInt8) (ssrc index : UInt32) (j : ℕ) : Block :=
  increment^[j] (buildAesCmIv salt ssrc index.toUInt64)

/-- The counter of a block is the IV with the number of the block. -/
theorem counterAt_eq (salt : Fin 14 → UInt8) (ssrc index : UInt32) {j : ℕ} (hj : j < 65536) :
    counterAt salt ssrc index j = withCounter (buildAesCmIv salt ssrc index.toUInt64) j :=
  iterate_increment rfl rfl hj

/-- The counters of a buffer by their blocks. -/
theorem aesCmXor_counters (c : Crypto) (s : SrtpSession) (buf : List UInt8)
    (ssrc index : UInt32) :
    (aesCmXor c s buf ssrc index).2 =
      (List.range ((buf.length + 15) / 16)).map (counterAt s.masterSalt ssrc index) :=
  aesCmLoop_counters _ _ buf

/-- Source, index and block can be read off a counter. -/
theorem counterAt_injective (salt : Fin 14 → UInt8) :
    Function.Injective fun p : UInt32 × UInt32 × Fin (2 ^ 16) =>
      counterAt salt p.1 p.2.1 p.2.2 := by
  rintro ⟨ssrc, index, j⟩ ⟨ssrc', index', j'⟩ h
  simp only at h
  rw [counterAt_eq salt ssrc index j.isLt, counterAt_eq salt ssrc' index' j'.isLt] at h
  obtain ⟨rfl, rfl⟩ := eq_of_withCounter_eq h
  have hj : j = j' := Fin.ext (withCounter_inj j.isLt j'.isLt h)
  rw [hj]

/-- The counter blocks of `aes_cm_xor` under one salt: the block of an iteration comes from no other
SSRC, packet index or position below 2^16. -/
theorem aesCmXor_counters_distinct (c : Crypto) (s : SrtpSession) :
    (∀ (buf : List UInt8) (ssrc index : UInt32),
        (aesCmXor c s buf ssrc index).2 =
          (List.range ((buf.length + 15) / 16)).map (counterAt s.masterSalt ssrc index)) ∧
      Function.Injective fun p : UInt32 × UInt32 × Fin (2 ^ 16) =>
        counterAt s.masterSalt p.1 p.2.1 p.2.2 :=
  ⟨aesCmXor_counters c s, counterAt_injective s.masterSalt⟩

end CppMeet.Srtp.Session
