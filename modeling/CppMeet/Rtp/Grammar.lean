import CppMeet.Rtp.Packet

/-!
# The grammar of RTP packets

`Layout` is a packet in its parts: the fields of the fixed header, at most 15 contributing sources,
an extension of at most 65535 words, and the rest. `parse` accepts exactly the strings
`Layout.bytes` (`parse_bytes`, `exists_layout`), the getters then return the parts, and the payload
is the rest.
-/

set_option autoImplicit false

namespace CppMeet.Rtp.Grammar

open CppMeet.Lib.BigEndian CppMeet.Lib.Buffer CppMeet.Rtp.Packet

/-- A header extension. -/
structure Extension where
  profile : UInt16
  words : List UInt32
  words_lt : words.length < 2 ^ 16

/-- Two bytes of the profile, two bytes that count the words, and the words. -/
def Extension.bytes (e : Extension) : List UInt8 :=
  put16 e.profile ++ (put16 (UInt16.ofNat e.words.length) ++ putWords e.words)

/-- The parts of a packet. -/
structure Layout where
  padding : Bool
  marker : Bool
  payloadType : UInt8
  sequence : UInt16
  timestamp : UInt32
  ssrc : UInt32
  csrc : List UInt32
  extension : Option Extension
  rest : List UInt8
  payloadType_lt : payloadType < 128
  csrc_le : csrc.length ≤ 15

/-- Version 2, P, X and CC. -/
def firstByte (padding extension : Bool) (cc : ℕ) : UInt8 :=
  0x80 ||| (if padding then 0x20 else 0x00) ||| (if extension then 0x10 else 0x00) |||
    UInt8.ofNat cc

/-- M and PT. -/
def secondByte (marker : Bool) (payloadType : UInt8) : UInt8 :=
  (if marker then 0x80 else 0x00) ||| payloadType

/-- The 12 bytes of the fixed header. -/
def fixedHeader (b0 b1 : UInt8) (seq : UInt16) (timestamp ssrc : UInt32) : List UInt8 :=
  [b0, b1] ++ (put16 seq ++ (put32 timestamp ++ put32 ssrc))

namespace Layout

variable (L : Layout)

/-- The twelve bytes that every packet starts with. -/
def fixed : List UInt8 :=
  fixedHeader (firstByte L.padding L.extension.isSome L.csrc.length)
    (secondByte L.marker L.payloadType) L.sequence L.timestamp L.ssrc

/-- The extension, if there is one. -/
def extensionBytes : List UInt8 := L.extension.elim [] Extension.bytes

/-- Everything in front of the payload. -/
def header : List UInt8 := L.fixed ++ (putWords L.csrc ++ L.extensionBytes)

/-- The whole packet. -/
def bytes : List UInt8 := L.header ++ L.rest

/-- The packet without padding, extension and contributing sources. -/
def plain (payloadType : UInt8) (hpt : payloadType < 128) (seq : UInt16) (timestamp ssrc : UInt32)
    (payload : List UInt8) (marker : Bool) : Layout where
  padding := false
  marker := marker
  payloadType := payloadType
  sequence := seq
  timestamp := timestamp
  ssrc := ssrc
  csrc := []
  extension := none
  rest := payload
  payloadType_lt := hpt
  csrc_le := Nat.zero_le 15

end Layout

/-! ## The two bytes of flags -/

theorem firstByte_fields (padding extension : Bool) {cc : ℕ} (hcc : cc ≤ 15) :
    (firstByte padding extension cc >>> 6) &&& 0x03 = 2 ∧
      ((firstByte padding extension cc >>> 5) &&& 0x01 ≠ 0 ↔ padding = true) ∧
      ((firstByte padding extension cc >>> 4) &&& 0x01 ≠ 0 ↔ extension = true) ∧
      firstByte padding extension cc &&& 0x0F = UInt8.ofNat cc := by
  -- the two flags and the sixteen counts, which the kernel goes through
  have hall : ∀ padding extension : Bool, ∀ cc < 16,
      (firstByte padding extension cc >>> 6) &&& 0x03 = 2 ∧
        ((firstByte padding extension cc >>> 5) &&& 0x01 ≠ 0 ↔ padding = true) ∧
        ((firstByte padding extension cc >>> 4) &&& 0x01 ≠ 0 ↔ extension = true) ∧
        firstByte padding extension cc &&& 0x0F = UInt8.ofNat cc := by
    decide +kernel
  exact hall padding extension cc (by omega)

/-- A byte with the version bits of version 2 is made of its fields. -/
theorem eq_firstByte {b : UInt8} (hversion : (b >>> 6) &&& 0x03 = 2) :
    b = firstByte ((b >>> 5) &&& 0x01 ≠ 0) ((b >>> 4) &&& 0x01 ≠ 0) (b &&& 0x0F).toNat := by
  have hall : ∀ n < 256, (UInt8.ofNat n >>> 6) &&& 0x03 = 2 →
      UInt8.ofNat n = firstByte ((UInt8.ofNat n >>> 5) &&& 0x01 ≠ 0)
        ((UInt8.ofNat n >>> 4) &&& 0x01 ≠ 0) (UInt8.ofNat n &&& 0x0F).toNat := by
    decide +kernel
  have hb := hall b.toNat b.toNat_lt
  rw [UInt8.ofNat_toNat] at hb
  exact hb hversion

theorem secondByte_fields (marker : Bool) {pt : UInt8} (hpt : pt < 128) :
    ((secondByte marker pt >>> 7) &&& 0x01 ≠ 0 ↔ marker = true) ∧
      secondByte marker pt &&& 0x7F = pt := by
  have hall : ∀ marker : Bool, ∀ n < 128,
      ((secondByte marker (UInt8.ofNat n) >>> 7) &&& 0x01 ≠ 0 ↔ marker = true) ∧
        secondByte marker (UInt8.ofNat n) &&& 0x7F = UInt8.ofNat n := by
    decide +kernel
  have hm := hall marker pt.toNat (UInt8.lt_iff_toNat_lt.1 hpt)
  rwa [UInt8.ofNat_toNat] at hm

/-- Every byte is a second byte of its fields. -/
theorem eq_secondByte (b : UInt8) :
    b &&& 0x7F < 128 ∧ b = secondByte ((b >>> 7) &&& 0x01 ≠ 0) (b &&& 0x7F) := by
  have hall : ∀ n < 256, UInt8.ofNat n &&& 0x7F < 128 ∧
      UInt8.ofNat n =
        secondByte ((UInt8.ofNat n >>> 7) &&& 0x01 ≠ 0) (UInt8.ofNat n &&& 0x7F) := by
    decide +kernel
  have hb := hall b.toNat b.toNat_lt
  rwa [UInt8.ofNat_toNat] at hb

/-! ## What `parse` accepts -/

namespace Layout

variable (L : Layout)

theorem fixed_length : L.fixed.length = 12 := rfl

theorem extensionBytes_length :
    L.extensionBytes.length = L.extension.elim 0 fun e => 4 + e.words.length * 4 := by
  rw [extensionBytes]
  cases L.extension with
  | none => rfl
  | some e =>
      change (put16 _ ++ (put16 _ ++ putWords e.words)).length = 4 + e.words.length * 4
      rw [List.length_append, List.length_append, putWords_length]
      change 2 + (2 + e.words.length * 4) = _
      omega

/-- The header with its contributing sources and its extension. -/
theorem header_length :
    L.header.length = 12 + L.csrc.length * 4 + L.extensionBytes.length := by
  rw [header, List.length_append, List.length_append, fixed_length, putWords_length]
  omega

theorem bytes_length : L.bytes.length = L.header.length + L.rest.length :=
  List.length_append

theorem bytes_head : L.bytes[0]? = some (firstByte L.padding L.extension.isSome L.csrc.length) :=
  rfl

/-- The count of the contributing sources is read back. -/
theorem cc_toNat :
    (firstByte L.padding L.extension.isSome L.csrc.length &&& 0x0F).toNat = L.csrc.length := by
  have hcsrc := L.csrc_le
  rw [(firstByte_fields _ _ hcsrc).2.2.2, UInt8.toNat_ofNat']
  omega

/-- The length of the extension is read from behind its profile. -/
theorem readU16_extension {e : Extension} (he : L.extension = some e) :
    readU16 L.bytes (12 + L.csrc.length * 4 + 2) = some (UInt16.ofNat e.words.length) := by
  have hbytes : L.bytes = (L.fixed ++ (putWords L.csrc ++ put16 e.profile)) ++
      (put16 (UInt16.ofNat e.words.length) ++ (putWords e.words ++ L.rest)) := by
    simp only [bytes, header, extensionBytes, he, Option.elim_some, Extension.bytes,
      List.append_assoc]
  have hpos : (L.fixed ++ (putWords L.csrc ++ put16 e.profile)).length =
      12 + L.csrc.length * 4 + 2 := by
    rw [List.length_append, List.length_append, fixed_length, putWords_length]
    change 12 + (L.csrc.length * 4 + 2) = _
    omega
  rw [hbytes, ← hpos]
  exact readU16_put16 _ _ _

/-- `parse` accepts the bytes of a layout, and the payload starts behind the header. -/
theorem parse_bytes (pkt : RtpPacket) :
    pkt.parse L.bytes = some (true, ⟨L.bytes, L.header.length⟩) := by
  have hlen := L.bytes_length
  have hheader := L.header_length
  have hext := L.extensionBytes_length
  obtain ⟨hversion, -, hx, -⟩ :=
    firstByte_fields L.padding L.extension.isSome L.csrc_le
  rw [RtpPacket.parse, rtpMinHeaderLen, if_neg (by omega), bytes_head]
  dsimp only [Option.bind_eq_bind, Option.bind_some]
  rw [cc_toNat, if_neg (not_not.2 hversion), if_neg (by omega)]
  cases he : L.extension with
  | none =>
      -- the extension bit is not set, and the header ends with the sources
      rw [he, Option.elim_none] at hext
      rw [he] at hx
      rw [if_neg fun hbit => by simpa using hx.1 hbit, hheader, hext]
      rfl
  | some e =>
      have hwords := e.words_lt
      rw [he, Option.elim_some] at hext
      rw [he] at hx
      -- the number of words fits its field
      have hcount : (UInt16.ofNat e.words.length).toNat = e.words.length := by
        rw [UInt16.toNat_ofNat']
        omega
      rw [if_pos (hx.2 rfl), if_neg (by omega), L.readU16_extension he]
      dsimp only [Option.bind_eq_bind, Option.bind_some]
      rw [hcount, if_neg (by omega), hheader, hext]
      rfl

end Layout

section Parts

variable (b0 b1 : UInt8) (seq : UInt16) (ts ssrc : UInt32)

theorem length_fixedHeader_append (tail : List UInt8) :
    (fixedHeader b0 b1 seq ts ssrc ++ tail).length = 12 + tail.length := List.length_append

/-- The two bytes that count the words of an extension. -/
theorem readU16_behind (csrc : List UInt32) (profile k : UInt16) (tail : List UInt8) :
    readU16 (fixedHeader b0 b1 seq ts ssrc ++ (putWords csrc ++ (put16 profile ++
      (put16 k ++ tail)))) (12 + csrc.length * 4 + 2) = some k := by
  have hpos : (fixedHeader b0 b1 seq ts ssrc ++ (putWords csrc ++ put16 profile)).length =
      12 + csrc.length * 4 + 2 := by
    rw [length_fixedHeader_append, List.length_append, putWords_length]
    change 12 + (csrc.length * 4 + 2) = _
    omega
  have hread := readU16_put16 (fixedHeader b0 b1 seq ts ssrc ++ (putWords csrc ++ put16 profile))
    tail k
  rwa [hpos, List.append_assoc, List.append_assoc] at hread

/-- The layout of a string with the given parts. -/
theorem exists_layout_of_parts {csrc : List UInt32} (extension : Option Extension)
    (rest : List UInt8) (hversion : (b0 >>> 6) &&& 0x03 = 2)
    (hcc : csrc.length = (b0 &&& 0x0F).toNat)
    (hext : (b0 >>> 4) &&& 0x01 ≠ 0 ↔ extension.isSome = true) :
    ∃ L : Layout, fixedHeader b0 b1 seq ts ssrc ++
      (putWords csrc ++ (extension.elim [] Extension.bytes ++ rest)) = L.bytes := by
  -- a count of four bits
  have hcsrc : csrc.length ≤ 15 := by
    have hmask : (b0 &&& 0x0F).toNat ≤ 15 := by
      rw [UInt8.toNat_and]
      exact Nat.and_le_right
    omega
  obtain ⟨hpt, hb1⟩ := eq_secondByte b1
  refine ⟨{ padding := (b0 >>> 5) &&& 0x01 ≠ 0, marker := (b1 >>> 7) &&& 0x01 ≠ 0
            payloadType := b1 &&& 0x7F, sequence := seq, timestamp := ts, ssrc := ssrc
            csrc := csrc, extension := extension, rest := rest, payloadType_lt := hpt
            csrc_le := hcsrc }, ?_⟩
  have hx : extension.isSome = decide ((b0 >>> 4) &&& 0x01 ≠ 0) := by
    rw [Bool.eq_iff_iff, decide_eq_true_iff]
    exact hext.symm
  simp only [Layout.bytes, Layout.header, Layout.fixed, Layout.extensionBytes, hx, hcc,
    ← eq_firstByte hversion, ← hb1, List.append_assoc]

end Parts

/-- Twelve bytes or more start with a fixed header. -/
theorem exists_fixedHeader {data : List UInt8} (hlen : 12 ≤ data.length) :
    ∃ b0 b1 seq ts ssrc tail, data = fixedHeader b0 b1 seq ts ssrc ++ tail := by
  rcases data with _ | ⟨b0, _ | ⟨b1, data⟩⟩
  · simp at hlen
  · simp at hlen
  · simp only [List.length_cons] at hlen
    obtain ⟨seq, data, rfl⟩ := exists_put16 data (by omega)
    rw [List.length_append, show (put16 seq).length = 2 from rfl] at hlen
    obtain ⟨ts, data, rfl⟩ := exists_put32 data (by omega)
    rw [List.length_append, show (put32 ts).length = 4 from rfl] at hlen
    obtain ⟨ssrc, data, rfl⟩ := exists_put32 data (by omega)
    refine ⟨b0, b1, seq, ts, ssrc, data, ?_⟩
    simp only [fixedHeader, List.append_assoc, List.cons_append, List.nil_append]

/-- A string that is the bytes of no layout is rejected, and the object is left alone. -/
theorem parse_eq_false {data : List UInt8} (hno : ¬ ∃ L : Layout, data = L.bytes)
    (pkt : RtpPacket) : pkt.parse data = some (false, pkt) := by
  rw [RtpPacket.parse, rtpMinHeaderLen]
  -- the checks in the order of `parse`; what passes one of them has the next part of a layout
  by_cases hshort : data.length < 12
  · rw [if_pos hshort]
    rfl
  obtain ⟨b0, b1, seq, ts, ssrc, tail, rfl⟩ := exists_fixedHeader (Nat.not_lt.1 hshort)
  rw [if_neg hshort, length_fixedHeader_append,
    show (fixedHeader b0 b1 seq ts ssrc ++ tail)[0]? = some b0 from rfl]
  dsimp only [Option.bind_eq_bind, Option.bind_some]
  by_cases hversion : (b0 >>> 6) &&& 0x03 = 2
  swap
  · rw [if_pos hversion]
    rfl
  rw [if_neg (not_not.2 hversion)]
  by_cases hcsrc : 12 + tail.length < 12 + (b0 &&& 0x0F).toNat * 4
  · rw [if_pos hcsrc]
    rfl
  obtain ⟨csrc, tail, hcc, rfl⟩ := exists_putWords (b0 &&& 0x0F).toNat tail (by omega)
  rw [if_neg hcsrc, ← hcc]
  by_cases hx : (b0 >>> 4) &&& 0x01 ≠ 0
  swap
  · -- without an extension the packet is complete
    refine absurd ?_ hno
    exact exists_layout_of_parts b0 b1 seq ts ssrc none tail hversion hcc (by simpa using hx)
  rw [if_pos hx, List.length_append, putWords_length]
  by_cases hcut : 12 + csrc.length * 4 + 4 > 12 + (csrc.length * 4 + tail.length)
  · rw [if_pos hcut]
    rfl
  obtain ⟨profile, tail, rfl⟩ := exists_put16 tail (by omega)
  rw [List.length_append, show (put16 profile).length = 2 from rfl] at hcut ⊢
  obtain ⟨k, tail, rfl⟩ := exists_put16 tail (by omega)
  rw [if_neg hcut, readU16_behind, List.length_append, show (put16 k).length = 2 from rfl]
  dsimp only [Option.bind_eq_bind, Option.bind_some]
  by_cases hwords : tail.length < k.toNat * 4
  · rw [if_pos (by omega)]
    rfl
  -- all words of the extension are there, so the packet is complete
  refine absurd ?_ hno
  obtain ⟨words, rest, hk, rfl⟩ := exists_putWords k.toNat tail (by omega)
  have hk16 := k.toNat_lt
  have hcount : UInt16.ofNat words.length = k := by rw [hk, UInt16.ofNat_toNat]
  obtain ⟨L, hL⟩ := exists_layout_of_parts b0 b1 seq ts ssrc
    (some ⟨profile, words, by omega⟩) rest hversion hcc (by simpa using hx)
  refine ⟨L, ?_⟩
  rw [← hL, Option.elim_some, Extension.bytes, hcount]
  simp only [List.append_assoc]

/-! ## The getters -/

/-- The getters of a packet return the parts of the layout. -/
structure Reads (pkt : RtpPacket) (L : Layout) : Prop where
  version : pkt.version = 2
  padding : pkt.padding = L.padding
  extension : pkt.extension = L.extension.isSome
  cc : pkt.cc.toNat = L.csrc.length
  marker : pkt.marker = L.marker
  payloadType : pkt.payloadType = L.payloadType
  sequence : pkt.sequence = L.sequence
  timestamp : pkt.timestamp = L.timestamp
  ssrc : pkt.ssrc = L.ssrc
  payloadPtr : pkt.payloadPtr = if L.rest = [] then none else some L.header.length
  payloadSize : pkt.payloadSize = L.rest.length
  payload : pkt.payload = L.rest

/-- The bytes of a layout, one part behind the other. -/
theorem Layout.bytes_eq (L : Layout) :
    L.bytes = fixedHeader (firstByte L.padding L.extension.isSome L.csrc.length)
      (secondByte L.marker L.payloadType) L.sequence L.timestamp L.ssrc ++
        (putWords L.csrc ++ (L.extensionBytes ++ L.rest)) := by
  simp only [Layout.bytes, Layout.header, Layout.fixed, List.append_assoc]

/-- The fields of the fixed header lie in the first twelve bytes. -/
theorem Layout.getD_bytes (L : Layout) {n : ℕ} (hn : n < 12) :
    L.bytes.getD n 0 = L.fixed.getD n 0 := by
  rw [L.bytes_eq]
  exact List.getD_append _ _ _ _ hn

/-- The payload pointer is null for an empty payload. -/
theorem payloadPtr_bytes (L : Layout) :
    (RtpPacket.mk L.bytes L.header.length).payloadPtr =
      if L.rest = [] then none else some L.header.length := by
  have hlen := L.bytes_length
  simp only [RtpPacket.payloadPtr]
  cases hrest : L.rest with
  | nil =>
      rw [hrest, List.length_nil] at hlen
      rw [if_pos (by omega), if_pos rfl]
  | cons b rest =>
      rw [hrest, List.length_cons] at hlen
      rw [if_neg (by omega), if_neg (List.cons_ne_nil b rest)]

/-- The payload is everything behind the header. -/
theorem payloadSize_bytes (L : Layout) :
    (RtpPacket.mk L.bytes L.header.length).payloadSize = L.rest.length := by
  have hlen := L.bytes_length
  simp only [RtpPacket.payloadSize]
  split_ifs with hout
  · omega
  · omega

/-- The getters return the fields of the layout. -/
theorem reads_bytes (L : Layout) : Reads ⟨L.bytes, L.header.length⟩ L := by
  obtain ⟨hversion, hpad, hext, hcc⟩ :=
    firstByte_fields L.padding L.extension.isSome L.csrc_le
  obtain ⟨hmarker, hpt⟩ := secondByte_fields L.marker L.payloadType_lt
  have hlen := L.bytes_length
  have hheader := L.header_length
  have hget (n : ℕ) (hn : n < 12) := L.getD_bytes hn
  refine ⟨?_, ?_, ?_, ?_, ?_, ?_, ?_, ?_, ?_, payloadPtr_bytes L, payloadSize_bytes L,
    List.drop_left⟩
  · -- byte 0
    simp only [RtpPacket.version]
    rw [if_neg (by omega), hget 0 (by omega)]
    exact hversion
  · simp only [RtpPacket.padding]
    rw [if_neg (by omega), hget 0 (by omega), Bool.eq_iff_iff, decide_eq_true_iff]
    exact hpad
  · simp only [RtpPacket.extension]
    rw [if_neg (by omega), hget 0 (by omega), Bool.eq_iff_iff, decide_eq_true_iff]
    exact hext
  · simp only [RtpPacket.cc]
    rw [if_neg (by omega), hget 0 (by omega)]
    exact L.cc_toNat
  · -- byte 1
    simp only [RtpPacket.marker]
    rw [if_neg (by omega), hget 1 (by omega), Bool.eq_iff_iff, decide_eq_true_iff]
    exact hmarker
  · simp only [RtpPacket.payloadType]
    rw [if_neg (by omega), hget 1 (by omega)]
    exact hpt
  · -- the big-endian fields
    simp only [RtpPacket.sequence]
    rw [if_neg (by omega), hget 2 (by omega), hget 3 (by omega)]
    exact be16_bytes L.sequence
  · simp only [RtpPacket.timestamp]
    rw [if_neg (by omega), hget 4 (by omega), hget 5 (by omega), hget 6 (by omega),
      hget 7 (by omega)]
    exact be32_bytes L.timestamp
  · simp only [RtpPacket.ssrc]
    rw [if_neg (by omega), hget 8 (by omega), hget 9 (by omega), hget 10 (by omega),
      hget 11 (by omega)]
    exact be32_bytes L.ssrc

/-- `build` writes the layout without padding, extension and contributing sources. -/
theorem build_buf (pt : UInt8) (hpt : pt < 128) (seq : UInt16) (ts ssrc : UInt32)
    (payload : List UInt8) (marker : Bool) :
    (RtpPacket.build pt seq ts ssrc payload marker).buf =
      (Layout.plain pt hpt seq ts ssrc payload marker).bytes := by
  have hmask : pt &&& 0x7F = pt := by
    have hfields := (secondByte_fields false hpt).2
    rwa [secondByte, if_neg Bool.false_ne_true, UInt8.zero_or] at hfields
  have hfirst : firstByte false false 0 = 0x80 := by decide
  rw [Layout.bytes_eq]
  simp only [RtpPacket.build, hmask, List.append_assoc, fixedHeader, Layout.plain,
    Option.isSome_none, List.length_nil, hfirst]
  rfl

/-- `parse` returns on every string, so it reads nothing outside of it, and accepts exactly the
grammar. The getters then return the parts, and what `build` has written is parsed back. -/
theorem parse_grammar (pkt : RtpPacket) (data : List UInt8) :
    (∃ ok after, pkt.parse data = some (ok, after) ∧
      (ok = true ↔ ∃ L : Layout, data = L.bytes) ∧
      (ok = true → after.buf = data ∧ ∀ L : Layout, data = L.bytes → Reads after L)) ∧
    ∀ (pt : UInt8) (hpt : pt < 128) (seq : UInt16) (ts ssrc : UInt32) (payload : List UInt8)
      (marker : Bool),
      (RtpPacket.build pt seq ts ssrc payload marker).buf =
          (Layout.plain pt hpt seq ts ssrc payload marker).bytes ∧
        pkt.parse (RtpPacket.build pt seq ts ssrc payload marker).buf =
          some (true, RtpPacket.build pt seq ts ssrc payload marker) ∧
        Reads (RtpPacket.build pt seq ts ssrc payload marker)
          (Layout.plain pt hpt seq ts ssrc payload marker) := by
  refine ⟨?_, fun pt hpt seq ts ssrc payload marker => ?_⟩
  · by_cases hL : ∃ L : Layout, data = L.bytes
    · obtain ⟨L, rfl⟩ := hL
      refine ⟨true, _, L.parse_bytes pkt, iff_of_true rfl ⟨L, rfl⟩, fun _ => ⟨rfl, ?_⟩⟩
      intro L' hL'
      -- two layouts of one string have headers of one length
      have hsame : some (true, (⟨L.bytes, L.header.length⟩ : RtpPacket)) =
          some (true, ⟨L.bytes, L'.header.length⟩) := by
        rw [← L.parse_bytes pkt, hL', L'.parse_bytes pkt]
      obtain ⟨-, hoffset⟩ := Prod.mk.inj (Option.some.inj hsame)
      rw [hoffset, hL']
      exact reads_bytes L'
    · refine ⟨false, pkt, parse_eq_false hL pkt, ?_, fun hok => absurd hok Bool.false_ne_true⟩
      exact iff_of_false Bool.false_ne_true hL
  · have hbuild : RtpPacket.build pt seq ts ssrc payload marker =
        ⟨(Layout.plain pt hpt seq ts ssrc payload marker).bytes,
          (Layout.plain pt hpt seq ts ssrc payload marker).header.length⟩ := by
      rw [← build_buf pt hpt seq ts ssrc payload marker]
      rfl
    refine ⟨build_buf pt hpt seq ts ssrc payload marker, ?_, ?_⟩
    · rw [hbuild]
      exact Layout.parse_bytes _ pkt
    · rw [hbuild]
      exact reads_bytes _

end CppMeet.Rtp.Grammar
