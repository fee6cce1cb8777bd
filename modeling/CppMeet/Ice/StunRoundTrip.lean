import CppMeet.Ice.Grammar

/-!
# STUN messages round trip

What the encoder writes for a list of attributes is a body of them in the decoder's grammar
(`body_serializeAttrs`), and the decoder's loop ends where the length field says, so bytes after the
message play no part.
-/

set_option autoImplicit false

namespace CppMeet.Ice.StunRoundTrip

open CppMeet.Lib.BigEndian CppMeet.Lib.Buffer CppMeet.Ice.Stun CppMeet.Ice.Stun.StunMessage
open CppMeet.Ice.Grammar

/-! ## Attributes -/

theorem length_serializeAttr (attr : StunAttr × List UInt8) :
    (serializeAttr attr).length = 4 + attr.2.length + pad attr.2.length := by
  rw [serializeAttr, List.length_append, List.length_append, List.length_append,
    List.length_replicate]
  rfl

theorem serializeAttrs_cons (attr : StunAttr × List UInt8) (attrs : List (StunAttr × List UInt8)) :
    serializeAttrs (attr :: attrs) = serializeAttr attr ++ serializeAttrs attrs :=
  List.flatMap_cons

theorem serializeAttrs_append (attrs more : List (StunAttr × List UInt8)) :
    serializeAttrs (attrs ++ more) = serializeAttrs attrs ++ serializeAttrs more :=
  List.flatMap_append

theorem serializeAttrs_concat (attrs : List (StunAttr × List UInt8))
    (attr : StunAttr × List UInt8) :
    serializeAttrs (attrs ++ [attr]) = serializeAttrs attrs ++ serializeAttr attr := by
  rw [serializeAttrs_append, serializeAttrs_cons]
  exact congrArg (serializeAttrs attrs ++ ·) (List.append_nil _)

/-- One more attribute makes the message longer by its size. -/
theorem length_serializeAttrs_concat (attrs : List (StunAttr × List UInt8)) (type : StunAttr)
    {value : List UInt8} (n : ℕ) (h : value.length = n) :
    (serializeAttrs (attrs ++ [(type, value)])).length =
      (serializeAttrs attrs).length + (4 + n + pad n) := by
  rw [serializeAttrs_concat, List.length_append, length_serializeAttr, h]

/-- A value is no longer than the encoding it is part of. -/
theorem length_le_of_mem {attrs : List (StunAttr × List UInt8)} {attr : StunAttr × List UInt8}
    (h : attr ∈ attrs) : attr.2.length ≤ (serializeAttrs attrs).length := by
  induction attrs with
  | nil => cases h
  | cons first attrs ih =>
      rw [serializeAttrs_cons, List.length_append, length_serializeAttr]
      rcases List.mem_cons.1 h with rfl | hmem
      · omega
      · have hle := ih hmem
        omega

/-- An attribute is its unpadded bytes and zeros. -/
theorem serializeAttr_eq (attr : StunAttr × List UInt8) :
    serializeAttr attr = unpadded attr ++ List.replicate (pad attr.2.length) 0 := by
  simp only [serializeAttr, unpadded, List.append_assoc]

/-- What the encoder writes is a body in which no padding is cut and no byte is spare. -/
theorem body_serializeAttrs {attrs : List (StunAttr × List UInt8)}
    (hlen : ∀ attr ∈ attrs, attr.2.length < 65536) : Body (serializeAttrs attrs) attrs := by
  induction attrs with
  | nil => exact .spare (Nat.zero_lt_succ 3)
  | cons attr attrs ih =>
      obtain ⟨hfirst, hrest⟩ := List.forall_mem_cons.1 hlen
      rw [serializeAttrs_cons, serializeAttr_eq, List.append_assoc]
      exact .cons hfirst List.length_replicate (ih hrest)

/-- The decoder's loop undoes the encoder's, with any bytes before and after. -/
theorem parseAttrs_serializeAttrs (attrs : List (StunAttr × List UInt8))
    (hlen : ∀ attr ∈ attrs, attr.2.length < 65536) (pre post : List UInt8)
    (done : List (StunAttr × List UInt8)) :
    parseAttrs (pre ++ (serializeAttrs attrs ++ post)) (pre.length + (serializeAttrs attrs).length)
      pre.length done = some (true, done ++ attrs) :=
  (body_serializeAttrs hlen).parseAttrs pre post done

/-! ## Messages -/

variable (m : StunMessage)

/-- The fields of a serialized message, one behind the other. -/
theorem serialize_append (post : List UInt8) : m.serialize ++ post =
    put16 m.type.code ++ (put16 (UInt16.ofNat (serializeAttrs m.attrs).length) ++
      (put32 stunMagicCookie ++ (m.transactionId.toList ++
        (serializeAttrs m.attrs ++ post)))) := by
  simp only [serialize, bytesWithLength, List.append_assoc]

/-- The attribute of an address takes twelve bytes. -/
theorem length_addXorMappedAddress (ip : UInt32) (port : UInt16) :
    (serializeAttrs (m.addXorMappedAddress ip port).attrs).length =
      (serializeAttrs m.attrs).length + 12 :=
  length_serializeAttrs_concat m.attrs .xorMappedAddress 8 rfl

/-- A digest takes the 24 bytes that its input counts in advance. -/
theorem length_addMessageIntegrity (hmacSha1 : List UInt8 → List UInt8 → Vector UInt8 20)
    (password : List UInt8) :
    (serializeAttrs (m.addMessageIntegrity hmacSha1 password).attrs).length =
      (serializeAttrs m.attrs).length + 24 :=
  length_serializeAttrs_concat m.attrs .messageIntegrity 20 (Vector.length_toList)

/-- A checksum takes the 8 bytes that its input counts in advance. -/
theorem length_addFingerprint :
    (serializeAttrs m.addFingerprint.attrs).length = (serializeAttrs m.attrs).length + 8 :=
  length_serializeAttrs_concat m.attrs .fingerprint 4 rfl

/-- The header of `serialize`. -/
def header : List UInt8 :=
  put16 m.type.code ++ (put16 (UInt16.ofNat (serializeAttrs m.attrs).length) ++
    (put32 stunMagicCookie ++ m.transactionId.toList))

theorem length_header : (header m).length = 20 := by
  rw [header, List.length_append, List.length_append, List.length_append, Vector.length_toList]
  rfl

/-- A serialized message is its header and its attributes. -/
theorem serialize_append_eq_header (post : List UInt8) :
    m.serialize ++ post = header m ++ (serializeAttrs m.attrs ++ post) := by
  simp only [serialize, bytesWithLength, header, List.append_assoc]

theorem readType (post : List UInt8) : readU16 (m.serialize ++ post) 0 = some m.type.code := by
  rw [serialize_append]
  exact readU16_put16 [] _ m.type.code

theorem readLength (post : List UInt8) : readU16 (m.serialize ++ post) 2 =
    some (UInt16.ofNat (serializeAttrs m.attrs).length) := by
  rw [serialize_append]
  exact readU16_put16 (put16 m.type.code) _ _

theorem readCookie (post : List UInt8) :
    readU32 (m.serialize ++ post) 4 = some stunMagicCookie := by
  rw [serialize_append]
  exact readU32_put32 (put16 m.type.code ++ put16 _) _ stunMagicCookie

theorem readTransactionId (post : List UInt8) :
    readVector (m.serialize ++ post) 8 12 = some m.transactionId := by
  rw [serialize_append]
  exact readVector_append (put16 m.type.code ++ put16 _ ++ put32 stunMagicCookie) _ _

/-- The first byte of the type has its two top bits clear. -/
theorem first_and_192 {code : UInt16} (h : code < 0x4000) :
    ((code >>> 8) &&& 0xFF).toUInt8 &&& 0xC0 = 0 := by
  have hsmall : ∀ n < 64, n &&& 192 = 0 := by decide
  have hcode : code.toNat < 16384 := UInt16.lt_iff_toNat_lt.1 h
  rw [← UInt8.toNat_inj]
  simp only [UInt8.toNat_and, UInt16.toNat_toUInt8, UInt16.toNat_and, UInt16.toNat_shiftRight]
  have hbyte : (code.toNat >>> 8 &&& 255) % 2 ^ 8 < 64 := by
    rw [and_255, Nat.shiftRight_eq_div_pow]
    omega
  exact hsmall _ hbyte

/-- Whatever follows, and whatever the object held, a message is read back. -/
theorem parse_serialize_append (old : StunMessage) (htype : m.type.code < 0x4000)
    (hfits : (serializeAttrs m.attrs).length < 65536) (post : List UInt8) :
    old.parse (m.serialize ++ post) = some (true, m) := by
  have hsize : (UInt16.ofNat (serializeAttrs m.attrs).length).toNat =
      (serializeAttrs m.attrs).length := by
    rw [UInt16.toNat_ofNat', Nat.mod_eq_of_lt hfits]
  have hlength : (m.serialize ++ post).length =
      20 + (serializeAttrs m.attrs).length + post.length := by
    rw [serialize_append_eq_header, List.length_append, List.length_append, length_header]
    omega
  -- no length of an attribute wraps, as all of them together fit
  have hshort : ∀ attr ∈ m.attrs, attr.2.length < 65536 :=
    fun attr hattr => Nat.lt_of_le_of_lt (length_le_of_mem hattr) hfits
  have hattrs := parseAttrs_serializeAttrs m.attrs hshort (header m) post []
  rw [← serialize_append_eq_header, length_header, List.nil_append] at hattrs
  have hfirst : (m.serialize ++ post)[0]? = some ((m.type.code >>> 8) &&& 0xFF).toUInt8 := rfl
  rw [parse, if_neg (by omega), readCookie, hfirst, readType, readLength, readTransactionId]
  dsimp only [Option.bind_eq_bind, Option.bind_some]
  rw [if_neg (by decide), if_neg (not_not.2 (first_and_192 htype)), hsize, if_neg (by omega),
    hattrs]
  rfl

/-! ## Addresses -/

theorem ntohl_ntohl (v : UInt32) : ntohl (ntohl v) = v := by
  have hbytes := bytes_be32 v.toUInt8 (v >>> 8).toUInt8 (v >>> 16).toUInt8 (v >>> 24).toUInt8
  rw [← ntohl] at hbytes
  obtain ⟨h0, h1, h2, h3⟩ := hbytes
  rw [ntohl, h0, h1, h2, h3, be32_toUInt8]

/-- The value written for an address and a port is read back as them. -/
theorem xorMappedValue_bytes (ip : UInt32) (port : UInt16) :
    xorMappedValue (([0x00, 0x01] : List UInt8) ++
      put16 (port ^^^ (stunMagicCookie >>> 16).toUInt16) ++
      put32 (ntohl ip ^^^ stunMagicCookie)) = some (ip, port) := by
  have hport := readU16_put16 [0x00, 0x01] (put32 (ntohl ip ^^^ stunMagicCookie))
    (port ^^^ (stunMagicCookie >>> 16).toUInt16)
  have hip := readU32_put32
    (([0x00, 0x01] : List UInt8) ++ put16 (port ^^^ (stunMagicCookie >>> 16).toUInt16)) []
    (ntohl ip ^^^ stunMagicCookie)
  rw [List.append_nil] at hip
  rw [← List.append_assoc] at hport
  change readU16 _ 2 = _ at hport
  change readU32 _ 4 = _ at hip
  -- each of the two is masked twice
  rw [xorMappedValue, hport, hip]
  simp only [Option.bind_eq_bind, Option.bind_some, UInt32.xor_assoc, UInt32.xor_self,
    UInt32.xor_zero, UInt16.xor_assoc, UInt16.xor_self, UInt16.xor_zero, ntohl_ntohl]
  rfl

/-- The first XOR-MAPPED-ADDRESS is the one that was added, whatever is added after it. -/
theorem getXorMappedAddress_add (hnone : ∀ attr ∈ m.attrs, attr.1 ≠ .xorMappedAddress)
    (ip : UInt32) (port : UInt16) (more : List (StunAttr × List UInt8)) :
    getXorMappedAddress
      { m with attrs := (m.addXorMappedAddress ip port).attrs ++ more } = some (ip, port) := by
  have hskip : m.attrs.findSome? (fun a =>
      if a.1 = .xorMappedAddress ∧ 8 ≤ a.2.length then xorMappedValue a.2 else none) = none := by
    apply List.findSome?_eq_none_iff.2
    intro attr hattr
    rw [if_neg fun h => hnone attr hattr h.1]
  -- the attributes before the added one are passed over
  rw [getXorMappedAddress]
  dsimp only [addXorMappedAddress]
  rw [List.append_assoc, List.findSome?_append, hskip, Option.none_or, List.singleton_append,
    List.findSome?_cons, if_pos ⟨rfl, Nat.le_refl 8⟩, xorMappedValue_bytes]

/-- A message with the two top bits of its type clear whose attributes fit the length field is
parsed back as it was, whatever bytes follow it, so every getter answers as before. An address
added to a message that has no XOR-MAPPED-ADDRESS yet is read back, also when attributes are added
after it. -/
theorem parse_serialize_message (old : StunMessage) (htype : m.type.code < 0x4000)
    (hfits : (serializeAttrs m.attrs).length < 65536) (post : List UInt8) :
    ∃ parsed, old.parse (m.serialize ++ post) = some (true, parsed) ∧
      parsed.type = m.type ∧ parsed.transactionId = m.transactionId ∧ parsed.attrs = m.attrs ∧
      (∀ attr, parsed.getStringAttr attr = m.getStringAttr attr) ∧
      (∀ attr, parsed.getUint32Attr attr = m.getUint32Attr attr) ∧
      parsed.getXorMappedAddress = m.getXorMappedAddress ∧
      ∀ (before : StunMessage) ip port more, (∀ attr ∈ before.attrs, attr.1 ≠ .xorMappedAddress) →
        m = { before with attrs := (before.addXorMappedAddress ip port).attrs ++ more } →
        parsed.getXorMappedAddress = some (ip, port) := by
  refine ⟨m, parse_serialize_append m old htype hfits post, rfl, rfl, rfl, fun _ => rfl,
    fun _ => rfl, rfl, ?_⟩
  intro before ip port more hnone hm
  rw [hm]
  exact getXorMappedAddress_add before hnone ip port more

/-- A response with a username of three bytes and an address, followed by one more byte. -/
theorem parse_serialize_message_response :
    let before : StunMessage := { type := .bindingResponse, attrs := [(.username, [97, 58, 98])] }
    ∃ parsed, StunMessage.parse {}
        ((before.addXorMappedAddress 0x6401A8C0 12345).serialize ++ [9]) = some (true, parsed) ∧
      parsed.getXorMappedAddress = some (0x6401A8C0, 12345) := by
  intro before
  obtain ⟨parsed, hparse, _, _, _, _, _, _, hget⟩ :=
    parse_serialize_message (before.addXorMappedAddress 0x6401A8C0 12345) {} (by decide)
      (by decide) [9]
  exact ⟨parsed, hparse, hget before _ _ [] (by decide) rfl⟩

end CppMeet.Ice.StunRoundTrip
