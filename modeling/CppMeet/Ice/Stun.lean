import CppMeet.Lib.Buffer
import Mathlib.Logic.Function.Iterate

/-!
# STUN messages

`StunMessage` holds the type, the transaction id and the attributes of a message in their order.
`serialize` writes it with every value padded to a multiple of 4; `addMessageIntegrity` and
`addFingerprint` append digests of what `serialize` would write, with the length field already
counting the new attribute. HMAC-SHA1 is a parameter.

`parse` fills an object from a buffer and returns whether it succeeded, beside the object; it has no
result when it reads outside of the buffer, which never happens (`exists_parse`).
-/

set_option autoImplicit false

namespace CppMeet.Ice.Stun

open CppMeet.Lib.BigEndian CppMeet.Lib.Buffer

/-- An `enum class` over `uint16_t`: a cast can give it any code. -/
structure StunType where
  code : UInt16
  deriving DecidableEq, Repr

namespace StunType

/-- The type of a connectivity check. -/
def bindingRequest : StunType := ⟨0x0001⟩

/-- The type of its answer. -/
def bindingResponse : StunType := ⟨0x0101⟩

end StunType

/-- As for `StunType`, any code is possible. -/
structure StunAttr where
  code : UInt16
  deriving DecidableEq, Repr

namespace StunAttr

/-- The names of both sides, the receiver's first. -/
def username : StunAttr := ⟨0x0006⟩

/-- The HMAC-SHA1 over the message in front of it. -/
def messageIntegrity : StunAttr := ⟨0x0008⟩

/-- The address a request came from, masked with the cookie. -/
def xorMappedAddress : StunAttr := ⟨0x0020⟩

/-- The priority of the candidate. -/
def priority : StunAttr := ⟨0x0024⟩

/-- Sent by the side that does not nominate. -/
def iceControlled : StunAttr := ⟨0x8029⟩

/-- Sent by the side that nominates. -/
def iceControlling : StunAttr := ⟨0x802A⟩

/-- The CRC-32 over the message in front of it. -/
def fingerprint : StunAttr := ⟨0x8028⟩

end StunAttr

/-- The word that tells STUN from other traffic. -/
def stunMagicCookie : UInt32 := 0x2112A442

/-- What ties a response to its request. -/
abbrev TransactionId := Vector UInt8 12

/-- A default-constructed object is a binding request with a zero transaction id. -/
structure StunMessage where
  type : StunType := .bindingRequest
  transactionId : TransactionId := Vector.replicate 12 0
  attrs : List (StunAttr × List UInt8) := []
  deriving DecidableEq, Repr

/-! ## CRC-32 -/

/-- One bit of the division by the reflected polynomial. -/
def crc32Shift (c : UInt32) : UInt32 :=
  if c &&& 1 ≠ 0 then (0xEDB88320 : UInt32) ^^^ (c >>> 1) else c >>> 1

/-- The table entry of a byte: eight turns of the bitwise form. -/
def makeCrc32TableEntry (i : UInt8) : UInt32 := crc32Shift^[8] i.toUInt32

/-- The entries of all bytes. -/
def crc32Table : Vector UInt32 256 := Vector.ofFn fun i => makeCrc32TableEntry (UInt8.ofNat i)

/-- The CRC-32 of the data, one table entry for each byte. -/
def crc32 (data : List UInt8) : UInt32 :=
  data.foldl (fun (crc : UInt32) b =>
    let index := ((crc ^^^ b.toUInt32) &&& 0xFF).toUInt8
    (crc >>> 8) ^^^ crc32Table.get ⟨index.toNat, index.toNat_lt⟩) 0xFFFFFFFF ^^^ 0xFFFFFFFF

/-- `ntohl` on a little-endian host; `htonl` is the same function. -/
def ntohl (v : UInt32) : UInt32 :=
  be32 v.toUInt8 (v >>> 8).toUInt8 (v >>> 16).toUInt8 (v >>> 24).toUInt8

/-- `ntohs` on a little-endian host. -/
def ntohs (v : UInt16) : UInt16 := be16 v.toUInt8 (v >>> 8).toUInt8

/-! ## Building a message -/

/-- The number of bytes that bring `n` bytes to a multiple of 4. -/
def pad (n : ℕ) : ℕ := (4 - n % 4) % 4

/-- An attribute: its type, its length, its value, and zeros up to the next multiple of four. -/
def serializeAttr (attr : StunAttr × List UInt8) : List UInt8 :=
  put16 attr.1.code ++ put16 (UInt16.ofNat attr.2.length) ++ attr.2 ++
    List.replicate (pad attr.2.length) 0

/-- The attributes one behind the other. -/
def serializeAttrs (attrs : List (StunAttr × List UInt8)) : List UInt8 :=
  attrs.flatMap serializeAttr

namespace StunMessage

/-- The constructor draws the transaction id from `rand()`. -/
def ofType (type : StunType) (rand : Fin 12 → UInt32) : StunMessage where
  type := type
  transactionId := Vector.ofFn fun i => (rand i &&& 0xFF).toUInt8

variable (m : StunMessage)

/-- The message under another transaction id. -/
def setTransactionId (tid : TransactionId) : StunMessage := { m with transactionId := tid }

/-- The message with one more attribute. -/
def addStringAttr (attr : StunAttr) (value : List UInt8) : StunMessage :=
  { m with attrs := m.attrs ++ [(attr, value)] }

/-- The message with one more attribute, a number in network byte order. -/
def addUint32Attr (attr : StunAttr) (value : UInt32) : StunMessage :=
  { m with attrs := m.attrs ++ [(attr, put32 value)] }

/-- `ip` is in network byte order, `port` in host byte order. -/
def addXorMappedAddress (ip : UInt32) (port : UInt16) : StunMessage :=
  let xport := port ^^^ (stunMagicCookie >>> 16).toUInt16
  let xip := ntohl ip ^^^ stunMagicCookie
  -- a reserved byte and the family IPv4
  { m with attrs := m.attrs ++ [(.xorMappedAddress, [0x00, 0x01] ++ put16 xport ++ put32 xip)] }

/-- Header and attributes, with a given length field. -/
def bytesWithLength (length : ℕ) : List UInt8 :=
  put16 m.type.code ++ put16 (UInt16.ofNat length) ++ put32 stunMagicCookie ++
    m.transactionId.toList ++ serializeAttrs m.attrs

/-- The message with the length field that belongs to it. -/
def serialize : List UInt8 := m.bytesWithLength (serializeAttrs m.attrs).length

/-- The length field covered by the digest already counts the 24 bytes of this attribute. -/
def addMessageIntegrity (hmacSha1 : List UInt8 → List UInt8 → Vector UInt8 20)
    (password : List UInt8) : StunMessage :=
  let hmacInput := m.bytesWithLength ((serializeAttrs m.attrs).length + 24)
  { m with attrs := m.attrs ++ [(.messageIntegrity, (hmacSha1 password hmacInput).toList)] }

/-- The length field covered by the checksum already counts the 8 bytes of this attribute. -/
def addFingerprint : StunMessage :=
  let fpInput := m.bytesWithLength ((serializeAttrs m.attrs).length + 8)
  { m with attrs := m.attrs ++ [(.fingerprint, put32 (crc32 fpInput ^^^ 0x5354554e))] }

/-! ## Reading a message -/

/-- The first attribute of the given type. -/
def getStringAttr (attr : StunAttr) : Option (List UInt8) :=
  (m.attrs.find? fun a => a.1 = attr).map Prod.snd

/-- The first attribute of the given type with at least four bytes. -/
def getUint32Attr (attr : StunAttr) : Option UInt32 :=
  m.attrs.findSome? fun a => if a.1 = attr ∧ 4 ≤ a.2.length then readU32 a.2 0 else none

/-- The address and the port of an XOR-MAPPED-ADDRESS value of at least eight bytes. -/
def xorMappedValue (val : List UInt8) : Option (UInt32 × UInt16) := do
  let xport ← readU16 val 2
  let xip ← readU32 val 4
  return (ntohl (xip ^^^ stunMagicCookie), xport ^^^ (stunMagicCookie >>> 16).toUInt16)

/-- `ip` in network byte order, `port` in host byte order. -/
def getXorMappedAddress : Option (UInt32 × UInt16) :=
  m.attrs.findSome? fun a =>
    if a.1 = .xorMappedAddress ∧ 8 ≤ a.2.length then xorMappedValue a.2 else none

/-- The check by which a receiver tells a STUN message from RTP and DTLS. -/
def isStun (data : List UInt8) : Bool :=
  20 ≤ data.length ∧ data.headD 0 &&& 0xC0 = 0 ∧ readU32 data 4 = some stunMagicCookie

/-- The loop over the attributes between `offset` and `fin`. -/
def parseAttrs (data : List UInt8) (fin offset : ℕ) (attrs : List (StunAttr × List UInt8)) :
    Option (Bool × List (StunAttr × List UInt8)) :=
  if offset + 4 ≤ fin then do
    let attrType ← readU16 data offset
    let attrLen ← readU16 data (offset + 2)
    -- an attribute that runs over the end: the ones in front of it are kept
    if offset + 4 + attrLen.toNat > fin then
      return (false, attrs)
    else
      let val ← readBytes data (offset + 4) attrLen.toNat
      parseAttrs data fin (offset + 4 + attrLen.toNat + pad attrLen.toNat)
        (attrs ++ [(⟨attrType⟩, val)])
  else return (true, attrs)
termination_by fin - offset

/-- The flag tells whether the bytes are a STUN message; the object is the one after the call. -/
def parse (data : List UInt8) : Option (Bool × StunMessage) :=
  if data.length < 20 then return (false, m)
  else do
    let cookie ← readU32 data 4
    if cookie ≠ stunMagicCookie then return (false, m)
    else
      let first ← data[0]?
      if first &&& 0xC0 ≠ 0 then return (false, m)
      else
        let type ← readU16 data 0
        let msgLen ← readU16 data 2
        let tid ← readVector data 8 12
        -- the object is overwritten before the length is known to be good
        let m : StunMessage := { type := ⟨type⟩, transactionId := tid, attrs := [] }
        if data.length < 20 + msgLen.toNat then return (false, m)
        else
          let (ok, attrs) ← parseAttrs data (20 + msgLen.toNat) 20 []
          return (ok, { m with attrs := attrs })

/-! ## All reads stay inside the buffer -/

/-- The loop reads inside the buffer when its end is inside. -/
theorem exists_parseAttrs {data : List UInt8} {fin : ℕ} (hfin : fin ≤ data.length) (offset : ℕ)
    (attrs : List (StunAttr × List UInt8)) :
    ∃ result, parseAttrs data fin offset attrs = some result := by
  induction offset, attrs using parseAttrs.induct fin with
  | case1 offset attrs hroom ih =>
      obtain ⟨attrType, htype⟩ := exists_readU16 (show offset + 2 ≤ data.length by omega)
      obtain ⟨attrLen, hlen⟩ := exists_readU16 (show offset + 2 + 2 ≤ data.length by omega)
      rw [parseAttrs, if_pos hroom, htype, hlen]
      dsimp only [Option.bind_eq_bind, Option.bind_some]
      split_ifs with hover
      · exact ⟨_, rfl⟩
      · obtain ⟨val, hval⟩ := exists_readBytes
          (show offset + 4 + attrLen.toNat ≤ data.length by omega)
        rw [hval]
        exact ih attrType attrLen val
  | case2 offset attrs hroom =>
      rw [parseAttrs, if_neg hroom]
      exact ⟨_, rfl⟩

/-- `parse` returns on every buffer, so it reads nothing outside of it. -/
theorem exists_parse (m : StunMessage) (data : List UInt8) :
    ∃ ok result, m.parse data = some (ok, result) := by
  unfold parse
  split_ifs with hshort
  · exact ⟨_, _, rfl⟩
  · obtain ⟨cookie, hcookie⟩ := exists_readU32 (show 4 + 4 ≤ data.length by omega)
    obtain ⟨first, hfirst⟩ := exists_getElem? (show 0 < data.length by omega)
    obtain ⟨type, htype⟩ := exists_readU16 (show 0 + 2 ≤ data.length by omega)
    obtain ⟨msgLen, hmsgLen⟩ := exists_readU16 (show 2 + 2 ≤ data.length by omega)
    obtain ⟨tid, htid⟩ := exists_readVector (show 8 + 12 ≤ data.length by omega)
    rw [hcookie, hfirst, htype, hmsgLen, htid]
    dsimp only [Option.bind_eq_bind, Option.bind_some]
    split_ifs with h1 h2 hcut
    · exact ⟨_, _, rfl⟩
    · exact ⟨_, _, rfl⟩
    · exact ⟨_, _, rfl⟩
    · obtain ⟨⟨ok, attrs⟩, hattrs⟩ :=
        exists_parseAttrs (show 20 + msgLen.toNat ≤ data.length by omega) 20 []
      rw [hattrs]
      exact ⟨_, _, rfl⟩

end StunMessage

end CppMeet.Ice.Stun
