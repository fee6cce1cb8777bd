import CppMeet.Rtp.Grammar
import CppMeet.Srtp.Inverse
import Mathlib.Data.Fintype.BigOperators
import Mathlib.Tactic.FinCases

/-!
# Where the encryption starts

`protect` XORs the keystream into everything behind the first twelve bytes. For a packet with
contributing sources or a header extension these twelve bytes are not the whole header that
`RtpPacket::parse` delimits, and the rest of the header is encrypted with the payload. The header
comes through under every key and salt exactly when there is no such rest
(`protect_keepsHeader_iff`): the rest has four bytes at least, and a block cipher cannot start the
keystreams of all salts with the same four bytes.
-/

set_option autoImplicit false

namespace CppMeet.Srtp.HeaderBoundary

open CppMeet.Rtp.Packet CppMeet.Rtp.Grammar CppMeet.Srtp.Session CppMeet.Srtp.Inverse

/-! ## The keystream, byte by byte -/

/-- Byte `i` of the keystream that starts at a counter block. -/
def keyByte (encrypt : Block → Block) (counter : Block) (i : ℕ) : UInt8 :=
  encrypt (increment^[i / 16] counter) ⟨i % 16, Nat.mod_lt i (by decide)⟩

/-- The next block of the keystream belongs to the next counter. -/
theorem keyByte_add_sixteen (encrypt : Block → Block) (counter : Block) (i : ℕ) :
    keyByte encrypt counter (i + 16) = keyByte encrypt (increment counter) i := by
  have hdiv : (i + 16) / 16 = i / 16 + 1 := Nat.add_div_right i (by decide)
  rw [keyByte, keyByte, hdiv, Function.iterate_succ_apply]
  simp only [Nat.add_mod_right]

/-- A byte is masked with its byte of the keystream. -/
theorem getElem?_aesCmLoop (encrypt : Block → Block) (counter : Block) (buf : List UInt8) (i : ℕ) :
    (aesCmLoop encrypt counter buf).1[i]? =
      buf[i]?.map fun b => b ^^^ keyByte encrypt counter i := by
  fun_induction aesCmLoop encrypt counter buf generalizing i with
  | case1 counter => rfl
  | case2 counter buf hne keystream chunk rest ih =>
      have hchunk : chunk.length = min 16 buf.length := by
        simp only [chunk, List.length_zipWith, List.length_take, List.length_ofFn]
        omega
      rcases Nat.lt_or_ge i chunk.length with hin | hout
      · -- a byte of this block
        have hi : i < 16 := by omega
        rw [List.getElem?_append_left hin, List.getElem?_zipWith, List.getElem?_take_of_lt hi,
          List.getElem?_eq_getElem (by omega), List.getElem?_eq_getElem (by simpa using hi),
          List.getElem_ofFn, keyByte, Nat.div_eq_of_lt hi]
        simp only [Nat.mod_eq_of_lt hi]
        rfl
      · rw [List.getElem?_append_right hout, ih, List.getElem?_drop]
        rcases Nat.lt_or_ge i buf.length with hlt | hge
        · -- a byte of a later block
          have hi : 16 + (i - chunk.length) = i := by omega
          have hshift : i - chunk.length + 16 = i := by omega
          rw [hi, ← keyByte_add_sixteen, hshift]
        · rw [List.getElem?_eq_none (by omega), List.getElem?_eq_none hge]
          rfl

variable (c : Crypto) (s : SrtpSession)

/-- Byte `i` of the keystream of a packet. -/
def keystream (pkt : List UInt8) (i : ℕ) : UInt8 :=
  keyByte (c.aesEncrypt s.masterKey)
    (buildAesCmIv s.masterSalt (ssrcOf pkt) (pktIndex s (seqOf pkt)).toUInt32.toUInt64) i

/-- The bytes behind the first twelve ones are XORed with the keystream. -/
theorem getElem?_protect {pkt : List UInt8} {i : ℕ} (hi : 12 + i < pkt.length) :
    (protect c s pkt).inOut[12 + i]? = pkt[12 + i]?.map fun b => b ^^^ keystream c s pkt i := by
  have hlen := length_crypt c s (show 12 ≤ pkt.length by omega)
  have hdrop := congrArg (fun bytes => bytes[i]?) (drop_crypt c s (show 12 ≤ pkt.length by omega))
  simp only [List.getElem?_drop, aesCmXor, getElem?_aesCmLoop] at hdrop
  rw [inOut_protect c s (by omega), List.getElem?_append_left (by omega), hdrop]
  rfl

/-- The first twelve bytes come through. -/
theorem getElem?_protect_of_lt {pkt : List UInt8} (hlen : 12 ≤ pkt.length) {i : ℕ} (hi : i < 12) :
    (protect c s pkt).inOut[i]? = pkt[i]? := by
  have htake := congrArg (fun bytes => bytes[i]?) (take_crypt c s hlen)
  simp only [List.getElem?_take_of_lt hi] at htake
  rw [inOut_protect c s hlen, List.getElem?_append_left (by rw [length_crypt c s hlen]; omega),
    htake]

/-- The first `n` bytes come through exactly when the keystream is zero on those behind the first
twelve ones. -/
theorem take_protect_iff {pkt : List UInt8} {n : ℕ} (hn : 12 ≤ n) (hlen : n ≤ pkt.length) :
    (protect c s pkt).inOut.take n = pkt.take n ↔ ∀ i, 12 + i < n → keystream c s pkt i = 0 := by
  constructor
  · intro htake i hi
    have hbyte := congrArg (fun bytes => bytes[12 + i]?) htake
    simp only [List.getElem?_take_of_lt hi] at hbyte
    rw [getElem?_protect c s (by omega), List.getElem?_eq_getElem (by omega), Option.map_some,
      Option.some_inj] at hbyte
    exact (UInt8.xor_right_inj _).1 (hbyte.trans UInt8.xor_zero.symm)
  · intro hzero
    apply List.ext_getElem?
    intro j
    rcases Nat.lt_or_ge j n with hj | hj
    · rw [List.getElem?_take_of_lt hj, List.getElem?_take_of_lt hj]
      rcases Nat.lt_or_ge j 12 with hfirst | hrest
      · exact getElem?_protect_of_lt c s (by omega) hfirst
      · obtain ⟨i, rfl⟩ := Nat.exists_eq_add_of_le hrest
        rw [getElem?_protect c s (by omega), hzero i hj]
        simp
    · rw [List.getElem?_take_eq_none hj, List.getElem?_take_eq_none hj]

/-! ## The header that `parse` delimits -/

/-- The getters that read the header return the same values, and the payload starts at the same
offset. -/
structure SameHeader (before after : RtpPacket) : Prop where
  version : after.version = before.version
  padding : after.padding = before.padding
  extension : after.extension = before.extension
  cc : after.cc = before.cc
  marker : after.marker = before.marker
  payloadType : after.payloadType = before.payloadType
  sequence : after.sequence = before.sequence
  timestamp : after.timestamp = before.timestamp
  ssrc : after.ssrc = before.ssrc
  payloadOffset : after.payloadOffset = before.payloadOffset

/-- `protect` succeeds on the packet that was parsed as `before`, leaves its header as it is, and
the result is parsed with the same header. -/
structure KeepsHeader (pkt : List UInt8) (before : RtpPacket) : Prop where
  ok : (protect c s pkt).ok = true
  header : (protect c s pkt).inOut.take before.payloadOffset = pkt.take before.payloadOffset
  parses : ∀ old : RtpPacket, ∃ after, old.parse (protect c s pkt).inOut = some (true, after) ∧
    SameHeader before after

/-- Packets with one header. -/
theorem sameHeader_rest (L : Layout) (rest : List UInt8) :
    SameHeader ⟨L.bytes, L.header.length⟩
      ⟨{ L with rest := rest }.bytes, { L with rest := rest }.header.length⟩ := by
  have hold := reads_bytes L
  have hnew := reads_bytes { L with rest := rest }
  refine ⟨?_, ?_, ?_, ?_, ?_, ?_, ?_, ?_, ?_, rfl⟩
  · rw [hold.version, hnew.version]
  · rw [hold.padding, hnew.padding]
  · rw [hold.extension, hnew.extension]
  · exact UInt8.toNat_inj.1 (hnew.cc.trans hold.cc.symm)
  · rw [hold.marker, hnew.marker]
  · rw [hold.payloadType, hnew.payloadType]
  · rw [hold.sequence, hnew.sequence]
  · rw [hold.timestamp, hnew.timestamp]
  · rw [hold.ssrc, hnew.ssrc]

/-- What `parse` accepts is the bytes of a layout, and the payload starts behind its header. -/
theorem exists_layout {old before : RtpPacket} {pkt : List UInt8}
    (h : old.parse pkt = some (true, before)) :
    ∃ L : Layout, pkt = L.bytes ∧ before = ⟨L.bytes, L.header.length⟩ := by
  by_cases hL : ∃ L : Layout, pkt = L.bytes
  · obtain ⟨L, rfl⟩ := hL
    rw [L.parse_bytes] at h
    exact ⟨L, rfl, (congrArg Prod.snd (Option.some.inj h)).symm⟩
  · rw [parse_eq_false hL] at h
    exact absurd (congrArg Prod.fst (Option.some.inj h)) Bool.false_ne_true

/-- The header of a packet that `parse` accepts comes through `protect` exactly when the keystream
is zero on all bytes between the fixed header and the payload. A header of twelve bytes has
none. -/
theorem keepsHeader_iff_keystream {old before : RtpPacket} {pkt : List UInt8}
    (h : old.parse pkt = some (true, before)) :
    KeepsHeader c s pkt before ↔
      ∀ i, 12 + i < before.payloadOffset → keystream c s pkt i = 0 := by
  obtain ⟨L, rfl, rfl⟩ := exists_layout h
  have hheader := L.header_length
  have hbytes := L.bytes_length
  have htake := take_protect_iff c s (show 12 ≤ L.header.length by omega)
    (show L.header.length ≤ L.bytes.length by omega)
  rw [← htake]
  refine ⟨KeepsHeader.header, fun hsame => ⟨?_, hsame, fun old => ?_⟩⟩
  · rw [ok_protect_iff]
    omega
  · -- the protected packet has the same header in front of another rest
    have hlayout : (protect c s L.bytes).inOut =
        { L with rest := (protect c s L.bytes).inOut.drop L.header.length }.bytes := by
      have hsplit := List.take_append_drop L.header.length (protect c s L.bytes).inOut
      rw [hsame, Layout.bytes, List.take_left] at hsplit
      exact hsplit.symm
    rw [hlayout]
    exact ⟨_, Layout.parse_bytes _ old, sameHeader_rest L _⟩

/-- A header that is longer than the fixed one is so by a word at least. -/
theorem header_length_cases (L : Layout) : L.header.length ≤ 12 ∨ 16 ≤ L.header.length := by
  have hheader := L.header_length
  have hext := L.extensionBytes_length
  cases he : L.extension with
  | none =>
      rw [he, Option.elim_none] at hext
      omega
  | some extension =>
      rw [he, Option.elim_some] at hext
      omega

/-! ## All keys and salts -/

/-- Different salts start with different counter blocks. -/
theorem buildAesCmIv_injective (ssrc : UInt32) (index : UInt64) :
    Function.Injective fun salt => buildAesCmIv salt ssrc index := by
  intro salt salt' h
  have hbyte (i : Fin 16) : buildAesCmIv salt ssrc index i = buildAesCmIv salt' ssrc index i :=
    congrFun h i
  funext i
  fin_cases i
  · exact hbyte 0
  · exact hbyte 1
  · exact hbyte 2
  · exact hbyte 3
  · exact (UInt8.xor_left_inj _).1 (hbyte 4)
  · exact (UInt8.xor_left_inj _).1 (hbyte 5)
  · exact (UInt8.xor_left_inj _).1 (hbyte 6)
  · exact (UInt8.xor_left_inj _).1 (hbyte 7)
  · exact (UInt8.xor_left_inj _).1 (hbyte 8)
  · exact (UInt8.xor_left_inj _).1 (hbyte 9)
  · exact (UInt8.xor_left_inj _).1 (hbyte 10)
  · exact (UInt8.xor_left_inj _).1 (hbyte 11)
  · exact (UInt8.xor_left_inj _).1 (hbyte 12)
  · exact (UInt8.xor_left_inj _).1 (hbyte 13)

/-- There are more counter blocks to start with than blocks with four zero bytes in front. -/
theorem exists_keyByte_ne_zero {encrypt : Block → Block} (hinj : Function.Injective encrypt)
    (ssrc : UInt32) (index : UInt64) :
    ∃ salt, ∃ i < 4, keyByte encrypt (buildAesCmIv salt ssrc index) i ≠ 0 := by
  by_contra hnone
  push Not at hnone
  have hzero (salt : Fin 14 → UInt8) (i : Fin 16) (hi : i.val < 4) :
      encrypt (buildAesCmIv salt ssrc index) i = 0 := by
    have hbyte := hnone salt i.val hi
    rw [keyByte, Nat.div_eq_of_lt i.isLt] at hbyte
    simpa only [Nat.mod_eq_of_lt i.isLt, Function.iterate_zero, id_eq] using hbyte
  -- the other twelve bytes of the first block of the keystream determine the salt
  let lastBytes (salt : Fin 14 → Fin 256) (i : Fin 12) : Fin 256 :=
    (encrypt (buildAesCmIv (fun j => .ofFin (salt j)) ssrc index) (i.addNat 4)).toFin
  have hlast : Function.Injective lastBytes := by
    intro salt salt' h
    have hblock : encrypt (buildAesCmIv (fun j => .ofFin (salt j)) ssrc index) =
        encrypt (buildAesCmIv (fun j => .ofFin (salt' j)) ssrc index) := by
      funext i
      rcases Nat.lt_or_ge i.val 4 with hi | hi
      · rw [hzero _ i hi, hzero _ i hi]
      · have hi' : (⟨i.val - 4, by omega⟩ : Fin 12).addNat 4 = i :=
          Fin.ext (Nat.sub_add_cancel hi)
        have hbyte := UInt8.toFin_inj.1 (congrFun h ⟨i.val - 4, by omega⟩)
        rwa [hi'] at hbyte
    have hsalt := buildAesCmIv_injective ssrc index (hinj hblock)
    funext j
    exact congrArg UInt8.toFin (congrFun hsalt j)
  have hcard := Fintype.card_le_of_injective lastBytes hlast
  simp only [Fintype.card_fun, Fintype.card_fin] at hcard
  exact absurd hcard (by decide)

/-- Under a block cipher, the header of a packet that `parse` accepts comes through `protect` for
all keys and salts exactly when the payload follows the twelve bytes of the fixed header. -/
theorem protect_keepsHeader_iff (hcipher : ∀ key, Function.Injective (c.aesEncrypt key))
    {old before : RtpPacket} {pkt : List UInt8} (h : old.parse pkt = some (true, before)) :
    (∀ key salt isSend, KeepsHeader c (init key salt isSend) pkt before) ↔
      before.payloadOffset ≤ 12 := by
  constructor
  · intro hall
    by_contra hlong
    have hfour : 16 ≤ before.payloadOffset := by
      obtain ⟨L, -, rfl⟩ := exists_layout h
      exact (header_length_cases L).resolve_left hlong
    let key : Fin 16 → UInt8 := fun _ => 0
    obtain ⟨salt, i, hi, hbyte⟩ := exists_keyByte_ne_zero (hcipher key) (ssrcOf pkt)
      (pktIndex (init key (fun _ => 0) true) (seqOf pkt)).toUInt32.toUInt64
    have hzero := (keepsHeader_iff_keystream c (init key salt true) h).1 (hall key salt true)
    exact hbyte (hzero i (by omega))
  · intro hshort key salt isSend
    refine (keepsHeader_iff_keystream c _ h).2 fun i hi => ?_
    omega

/-- AES-128 of the zero block under the zero key. -/
def aesZero : Block :=
  ![0x66, 0xe9, 0x4b, 0xd4, 0xef, 0x8a, 0x2c, 0x3b, 0x88, 0x4c, 0xfa, 0x59, 0xca, 0x34, 0x2b, 0x2e]

/-- A block cipher that agrees with AES-128 on the zero block under the zero key. -/
def xorCipher : Crypto := ⟨fun _ block i => block i ^^^ aesZero i, fun _ _ _ => 0⟩

/-- Different blocks are encrypted differently. -/
theorem xorCipher_injective (key : Fin 16 → UInt8) :
    Function.Injective (xorCipher.aesEncrypt key) := by
  intro block block' h
  funext i
  exact (UInt8.xor_left_inj _).1 (congrFun h i)

/-- A packet with a fixed header and three bytes of payload. -/
theorem protect_keepsHeader_fixed :
    KeepsHeader xorCipher (init (fun _ => 0) (fun _ => 0) true)
      (RtpPacket.build 96 0 0 0 [1, 2, 3]).buf (RtpPacket.build 96 0 0 0 [1, 2, 3]) := by
  have hparse : RtpPacket.parse {} (RtpPacket.build 96 0 0 0 [1, 2, 3]).buf =
      some (true, RtpPacket.build 96 0 0 0 [1, 2, 3]) := by decide
  exact (protect_keepsHeader_iff _ xorCipher_injective hparse).2 (by decide) _ _ _

/-- With one contributing source, under the zero key and the zero salt, the counter block is zero
and the source comes out as the first bytes of the keystream. -/
theorem protect_encrypts_csrc :
    ¬ ∀ c : Crypto, (∀ key, Function.Injective (c.aesEncrypt key)) →
      ∀ (key : Fin 16 → UInt8) (salt : Fin 14 → UInt8) (isSend : Bool)
        (old before : RtpPacket) (pkt : List UInt8), old.parse pkt = some (true, before) →
          KeepsHeader c (init key salt isSend) pkt before := by
  intro hall
  have hparse : RtpPacket.parse {} ([0x81, 96] ++ List.replicate 14 0) =
      some (true, ⟨[0x81, 96] ++ List.replicate 14 0, 16⟩) := by decide
  have hkeeps := hall xorCipher xorCipher_injective (fun _ => 0) (fun _ => 0) true _ _ _ hparse
  have hzero := (take_protect_iff _ _ (by decide) (by decide)).1 hkeeps.header 0 (by decide)
  exact absurd hzero (by decide)

end CppMeet.Srtp.HeaderBoundary
