import CppMeet.Lib.Buffer
import CppMeet.Lib.Frames
import Mathlib.Data.List.Basic
import Mathlib.Tactic.NormNum

/-!
# WebSocket frames

`WebSocketServer::parse_ws_frames` and the reads that feed it. The parser works on the front of
`ws_buf`: it reads a header in one of three length encodings, waits until the whole frame is there,
unmasks the payload, removes the frame and acts on its opcode. Sizes are 64-bit and wrap, as
`size_t` does; a payload length that no `std::string` can have makes the string constructor throw.

`nextFrame` is prefix stable, so it is a `Framing`, and the loop is its `drain` (`parse_eq_drain`).
How the bytes are split into reads therefore makes no difference (`reads_eq_parse`).
-/

set_option autoImplicit false

namespace CppMeet.Signaling.WsFrames

open CppMeet.Lib CppMeet.Lib.Frames

/-- A connection, the bytes of its handshake and those of its frames. -/
structure WsConnection where
  fd : Int
  handshakeDone : Bool := false
  recvBuf : List UInt8 := []
  wsBuf : List UInt8 := []

/-- What the server does to the outside while it parses. -/
inductive WsEvent where
  | onMessage (connId : Int) (msg : List UInt8)
  | write (fd : Int) (bytes : List UInt8)
  | close (fd : Int)
  /-- `std::length_error` leaves the parser. -/
  | lengthError
  deriving DecidableEq

/-- `std::string::max_size()`. -/
def maxStringSize : ℕ := 2 ^ 63 - 1

/-! ## The header -/

/-- What the first bytes of a frame say. -/
structure Header where
  opcode : UInt8
  masked : Bool
  payloadLen : UInt64
  headerSize : UInt64

/-- The header at the front of the buffer, `some none` while its bytes are not all there. A read
outside of the buffer has no value. -/
def readHeader (buf : List UInt8) : Option (Option Header) :=
  if buf.length < 2 then some none
  else do
    let b0 ← buf[0]?
    let b1 ← buf[1]?
    let opcode := b0 &&& 0x0F
    let masked := (b1 &&& 0x80) != 0
    let payloadLen := (b1 &&& 0x7F).toUInt64
    -- the length is in the next two bytes
    if payloadLen = 126 then
      if buf.length < 4 then some none
      else
        let b2 ← buf[2]?
        let b3 ← buf[3]?
        some (some ⟨opcode, masked, (b2.toUInt64 <<< 8) ||| b3.toUInt64, 4⟩)
    -- in the next eight
    else if payloadLen = 127 then
      if buf.length < 10 then some none
      else
        let bytes ← Buffer.readBytes buf 2 8
        let len := bytes.foldl (fun (len : UInt64) b => (len <<< 8) ||| b.toUInt64) 0
        some (some ⟨opcode, masked, len, 10⟩)
    else some (some ⟨opcode, masked, payloadLen, 2⟩)

/-- The bytes of the masking key. -/
def Header.maskSize (h : Header) : UInt64 := if h.masked then 4 else 0

/-- The size of the frame as the parser computes it, modulo 2^64. -/
def Header.total (h : Header) : UInt64 := h.headerSize + h.maskSize + h.payloadLen

/-- The payload bytes, unmasked. -/
def Header.payload (h : Header) (buf : List UInt8) : Option (List UInt8) :=
  let start := h.headerSize.toNat
  if h.masked then do
    let mask ← Buffer.readBytes buf start 4
    let body ← Buffer.readBytes buf (start + 4) h.payloadLen.toNat
    return body.mapIdx fun i b => b ^^^ mask.getD (i % 4) 0
  else Buffer.readBytes buf start h.payloadLen.toNat

/-! ## The loop -/

/-- A frame taken off the buffer, or the exception its length causes. -/
inductive ParsedFrame where
  | frame (opcode : UInt8) (payloadLen : UInt64) (payload : List UInt8)
  | lengthError

/-- One turn of the loop, up to the removal of the frame: `some none` when the parser waits, and no
value when it reads outside of the buffer. -/
def turn (buf : List UInt8) : Option (Option (ParsedFrame × List UInt8)) := do
  match ← readHeader buf with
  | none => return none
  | some h =>
      if buf.length < h.total.toNat then return none
      -- the total size may have wrapped, but such a payload is refused before it is read
      else if maxStringSize < h.payloadLen.toNat then return some (.lengthError, buf)
      else
        let payload ← h.payload buf
        return some (.frame h.opcode h.payloadLen payload, buf.drop h.total.toNat)

/-- What a turn takes off the buffer. Every turn has a value (`exists_turn`). -/
def nextFrame (buf : List UInt8) : Option (ParsedFrame × List UInt8) := (turn buf).join

/-- After a Close frame, and after an exception, the connection is not parsed further. -/
def ParsedFrame.isFinal : ParsedFrame → Bool
  | .frame opcode _ _ => opcode == 0x8
  | .lengthError => true

/-- The reaction to a frame. A Ping is answered by a two-byte header and, in a second write, the
payload if there is one; other opcodes are ignored. -/
def ParsedFrame.dispatch (fd : Int) : ParsedFrame → List WsEvent
  | .frame opcode payloadLen payload =>
      if opcode = 0x1 then [.onMessage fd payload]
      else if opcode = 0x8 then [.close fd]
      else if opcode = 0x9 then
        let pong := [.write fd [0x8A, (payloadLen &&& 0x7F).toUInt8]]
        -- an empty payload is not written
        if payload = [] then pong else pong ++ [.write fd payload]
      -- binary frames, continuations and pongs are dropped
      else []
  | .lengthError => [.lengthError]

/-- What a frame can cause. -/
theorem dispatch_cases {fd : Int} {f : ParsedFrame} {event : WsEvent} (h : event ∈ f.dispatch fd) :
    (∃ payloadLen payload, f = .frame 0x1 payloadLen payload ∧ event = .onMessage fd payload) ∨
      (∃ payloadLen payload, f = .frame 0x8 payloadLen payload ∧ event = .close fd) ∨
      (∃ payloadLen payload bytes, f = .frame 0x9 payloadLen payload ∧ event = .write fd bytes) ∨
      f = .lengthError ∧ event = .lengthError := by
  cases f with
  | lengthError => exact Or.inr (Or.inr (Or.inr ⟨rfl, List.mem_singleton.1 h⟩))
  | frame opcode payloadLen payload =>
      rw [ParsedFrame.dispatch] at h
      split at h
      · rename_i htext
        exact Or.inl ⟨payloadLen, payload, by rw [htext], List.mem_singleton.1 h⟩
      · split at h
        · rename_i hclose
          exact Or.inr (Or.inl ⟨payloadLen, payload, by rw [hclose], List.mem_singleton.1 h⟩)
        · split at h
          · rename_i hping
            -- the pong is written in one or two parts
            have hwrite : ∃ bytes, event = .write fd bytes := by
              dsimp only at h
              split at h
              · exact ⟨_, List.mem_singleton.1 h⟩
              · rcases List.mem_append.1 h with h | h
                · exact ⟨_, List.mem_singleton.1 h⟩
                · exact ⟨_, List.mem_singleton.1 h⟩
            obtain ⟨bytes, hevent⟩ := hwrite
            exact Or.inr (Or.inr (Or.inl ⟨payloadLen, payload, bytes, by rw [hping], hevent⟩))
          · -- any other opcode
            cases h

/-- The connection, what was done, and whether parsing ended for good. -/
structure Parsed where
  conn : WsConnection
  events : List WsEvent
  ended : Bool

/-! ## Reads -/

/-- How the second byte, with the bytes behind it, gives the payload length and the header size. -/
def LengthRead (buf : List UInt8) (b1 : UInt8) (h : Header) : Prop :=
  let len := (b1 &&& 0x7F).toUInt64
  (len = 126 ∧ h.headerSize = 4 ∧ ∃ b2 b3 : UInt8, buf[2]? = some b2 ∧ buf[3]? = some b3 ∧
      h.payloadLen = (b2.toUInt64 <<< 8) ||| b3.toUInt64) ∨
    (len = 127 ∧ h.headerSize = 10 ∧ ∃ bytes, Buffer.readBytes buf 2 8 = some bytes ∧
      h.payloadLen = bytes.foldl (fun (len : UInt64) b => (len <<< 8) ||| b.toUInt64) 0) ∨
    (len ≠ 126 ∧ len ≠ 127 ∧ h.headerSize = 2 ∧ h.payloadLen = len)

/-- A header and the bytes it is read from. -/
theorem readHeader_eq_some_iff {buf : List UInt8} {h : Header} :
    readHeader buf = some (some h) ↔ ∃ b0 b1, buf[0]? = some b0 ∧ buf[1]? = some b1 ∧
      h.opcode = b0 &&& 0x0F ∧ h.masked = ((b1 &&& 0x80) != 0) ∧ LengthRead buf b1 h := by
  obtain ⟨opcode, masked, payloadLen, headerSize⟩ := h
  by_cases h2 : buf.length < 2
  · have hout : buf[1]? = none := List.getElem?_eq_none (by omega)
    simp [readHeader, h2, hout]
  · obtain ⟨b0, h0⟩ := Buffer.exists_getElem? (show 0 < buf.length by omega)
    obtain ⟨b1, h1⟩ := Buffer.exists_getElem? (show 1 < buf.length by omega)
    rw [readHeader, if_neg h2, h0, h1]
    simp only [LengthRead, Option.bind_eq_bind, Option.bind_some, Option.some.injEq]
    -- two more bytes, which are there or not
    by_cases h126 : (b1 &&& 0x7F).toUInt64 = 126
    · by_cases h4 : buf.length < 4
      · have hout : buf[3]? = none := List.getElem?_eq_none (by omega)
        simp [h126, h4, hout]
      · obtain ⟨b2, h2⟩ := Buffer.exists_getElem? (show 2 < buf.length by omega)
        obtain ⟨b3, h3⟩ := Buffer.exists_getElem? (show 3 < buf.length by omega)
        simp [h126, h4, h2, h3, eq_comm, and_comm]
    · -- eight more bytes
      by_cases h127 : (b1 &&& 0x7F).toUInt64 = 127
      · by_cases h10 : buf.length < 10
        · have hout : Buffer.readBytes buf 2 8 = none := if_neg (by omega)
          simp [h127, h10, hout]
        · obtain ⟨bytes, hbytes⟩ := Buffer.exists_readBytes (show 2 + 8 ≤ buf.length by omega)
          simp [h127, h10, hbytes, eq_comm, and_comm]
      · -- the length is in the second byte
        rw [if_neg h126, if_neg h127]
        constructor
        · rintro ⟨⟩
          exact ⟨b0, b1, rfl, rfl, rfl, rfl, Or.inr (Or.inr ⟨h126, h127, rfl, rfl⟩)⟩
        · rintro ⟨_, _, rfl, rfl, hop, hmask, ⟨heq, -⟩ | ⟨heq, -⟩ | ⟨-, -, hsize, hlen⟩⟩
          · exact absurd heq h126
          · exact absurd heq h127
          · rw [hop, hmask, hsize, hlen]

/-- Whatever the buffer holds, the header is read inside of it. -/
theorem exists_readHeader (buf : List UInt8) : ∃ header, readHeader buf = some header := by
  unfold readHeader
  by_cases h2 : buf.length < 2
  · exact ⟨_, if_pos h2⟩
  · obtain ⟨b0, h0⟩ := Buffer.exists_getElem? (show 0 < buf.length by omega)
    obtain ⟨b1, h1⟩ := Buffer.exists_getElem? (show 1 < buf.length by omega)
    rw [if_neg h2, h0, h1]
    dsimp only [Option.bind_eq_bind, Option.bind_some]
    split
    · split
      · exact ⟨_, rfl⟩
      · obtain ⟨b2, h2⟩ := Buffer.exists_getElem? (show 2 < buf.length by omega)
        obtain ⟨b3, h3⟩ := Buffer.exists_getElem? (show 3 < buf.length by omega)
        rw [h2, h3]
        exact ⟨_, rfl⟩
    · split
      · split
        · exact ⟨_, rfl⟩
        · obtain ⟨bytes, hbytes⟩ := Buffer.exists_readBytes (show 2 + 8 ≤ buf.length by omega)
          rw [hbytes]
          exact ⟨_, rfl⟩
      · exact ⟨_, rfl⟩

/-- The three header sizes. -/
theorem headerSize_of_readHeader {buf : List UInt8} {h : Header}
    (hh : readHeader buf = some (some h)) :
    h.headerSize.toNat ≤ buf.length ∧ 2 ≤ h.headerSize.toNat ∧ h.headerSize.toNat ≤ 10 := by
  obtain ⟨b0, b1, -, h1, -, -, hlen⟩ := readHeader_eq_some_iff.1 hh
  rcases hlen with ⟨-, hsize, b2, b3, -, h3, -⟩ | ⟨-, hsize, bytes, hbytes, -⟩ | ⟨-, -, hsize, -⟩
  · have hlt := (List.getElem?_eq_some_iff.1 h3).1
    rw [hsize]
    exact ⟨hlt, by decide, by decide⟩
  · have hle := Buffer.le_of_readBytes hbytes
    rw [hsize]
    exact ⟨hle, by decide, by decide⟩
  · have hlt := (List.getElem?_eq_some_iff.1 h1).1
    rw [hsize]
    exact ⟨hlt, by decide, by decide⟩

/-- A length that fits a string makes the size computation exact. -/
theorem total_toNat {buf : List UInt8} {h : Header} (hh : readHeader buf = some (some h))
    (hmax : h.payloadLen.toNat ≤ maxStringSize) :
    h.total.toNat = h.headerSize.toNat + h.maskSize.toNat + h.payloadLen.toNat := by
  obtain ⟨-, -, hsize⟩ := headerSize_of_readHeader hh
  have hmask : h.maskSize.toNat ≤ 4 := by
    unfold Header.maskSize
    split <;> simp
  rw [maxStringSize] at hmax
  simp only [Header.total, UInt64.toNat_add]
  omega

/-- A payload that is all there is read inside the buffer. -/
theorem exists_payload {buf : List UInt8} {h : Header}
    (hlen : h.headerSize.toNat + h.maskSize.toNat + h.payloadLen.toNat ≤ buf.length) :
    ∃ payload, h.payload buf = some payload := by
  rw [Header.maskSize] at hlen
  unfold Header.payload
  cases hmasked : h.masked with
  | true =>
      rw [hmasked] at hlen
      change _ + 4 + _ ≤ _ at hlen
      obtain ⟨mask, hmask⟩ := Buffer.exists_readBytes
        (show h.headerSize.toNat + 4 ≤ buf.length by omega)
      obtain ⟨body, hbody⟩ := Buffer.exists_readBytes hlen
      exact ⟨_, by simp only [if_true, hmask, hbody]; rfl⟩
  | false =>
      rw [hmasked] at hlen
      exact Buffer.exists_readBytes hlen

theorem length_of_payload {buf payload : List UInt8} {h : Header}
    (hread : h.payload buf = some payload) : payload.length = h.payloadLen.toNat := by
  unfold Header.payload at hread
  split at hread
  · simp only [Option.bind_eq_bind, Option.bind_eq_some_iff] at hread
    obtain ⟨mask, -, body, hbody, hpayload⟩ := hread
    rw [← Option.some.inj hpayload, List.length_mapIdx]
    exact Buffer.length_of_readBytes hbody
  · exact Buffer.length_of_readBytes hread

/-- No turn reads outside of the buffer. -/
theorem exists_turn (buf : List UInt8) : ∃ result, turn buf = some result := by
  obtain ⟨header, hh⟩ := exists_readHeader buf
  rw [turn, hh]
  cases header with
  | none => exact ⟨_, rfl⟩
  | some h =>
      dsimp only [Option.bind_eq_bind, Option.bind_some]
      split_ifs with hshort hmax
      · exact ⟨_, rfl⟩
      · exact ⟨_, rfl⟩
      · have hfits := total_toNat hh (Nat.le_of_not_lt hmax) ▸ Nat.le_of_not_lt hshort
        obtain ⟨payload, hpayload⟩ := exists_payload hfits
        rw [hpayload]
        exact ⟨_, rfl⟩

/-- A turn takes a frame if its header and as many bytes as it announces are there. -/
theorem nextFrame_eq_some_iff {buf rest : List UInt8} {f : ParsedFrame} :
    nextFrame buf = some (f, rest) ↔
      ∃ h, readHeader buf = some (some h) ∧ h.total.toNat ≤ buf.length ∧
        (maxStringSize < h.payloadLen.toNat ∧ f = .lengthError ∧ rest = buf ∨
          h.payloadLen.toNat ≤ maxStringSize ∧ ∃ payload, h.payload buf = some payload ∧
            f = .frame h.opcode h.payloadLen payload ∧ rest = buf.drop h.total.toNat) := by
  obtain ⟨header, hh⟩ := exists_readHeader buf
  rw [nextFrame, turn, hh]
  cases header with
  | none => simp
  | some h =>
      simp only [Option.bind_eq_bind, Option.bind_some, Option.some.injEq, exists_eq_left']
      by_cases hshort : buf.length < h.total.toNat
      · simp [hshort, Nat.not_le_of_lt hshort]
      · rw [if_neg hshort, and_iff_right (Nat.le_of_not_lt hshort)]
        by_cases hmax : maxStringSize < h.payloadLen.toNat
        · simp [hmax, Nat.not_le_of_lt hmax, eq_comm]
        · have hfits := total_toNat hh (Nat.le_of_not_lt hmax) ▸ Nat.le_of_not_lt hshort
          obtain ⟨payload, hpayload⟩ := exists_payload hfits
          simp [hmax, Nat.le_of_not_lt hmax, hpayload, eq_comm]

/-! ## Prefix stability -/

/-- Bytes that are there do not depend on what follows. -/
theorem readHeader_append {buf : List UInt8} {h : Header} (more : List UInt8)
    (hh : readHeader buf = some (some h)) : readHeader (buf ++ more) = some (some h) := by
  have hleft {i : ℕ} {b : UInt8} (hb : buf[i]? = some b) : (buf ++ more)[i]? = some b := by
    rw [List.getElem?_append_left (List.getElem?_eq_some_iff.1 hb).1, hb]
  obtain ⟨b0, b1, h0, h1, hopcode, hmasked, hlen⟩ := readHeader_eq_some_iff.1 hh
  refine readHeader_eq_some_iff.2 ⟨b0, b1, hleft h0, hleft h1, hopcode, hmasked, ?_⟩
  rcases hlen with ⟨h126, hsize, b2, b3, h2, h3, hlen⟩ | ⟨h127, hsize, bytes, hbytes, hlen⟩ | hlen
  · exact Or.inl ⟨h126, hsize, b2, b3, hleft h2, hleft h3, hlen⟩
  · have hread := Buffer.readBytes_append_left more (Buffer.le_of_readBytes hbytes)
    exact Or.inr (Or.inl ⟨h127, hsize, bytes, hread.trans hbytes, hlen⟩)
  · exact Or.inr (Or.inr hlen)

/-- The payload does not depend on what follows the frame. -/
theorem payload_append {buf payload : List UInt8} {h : Header} (more : List UInt8)
    (hread : h.payload buf = some payload) : h.payload (buf ++ more) = some payload := by
  unfold Header.payload at hread ⊢
  split
  · rename_i hmasked
    rw [if_pos hmasked] at hread
    simp only [Option.bind_eq_bind, Option.bind_eq_some_iff] at hread ⊢
    obtain ⟨mask, hmask, body, hbody, hpayload⟩ := hread
    rw [Buffer.readBytes_append_left more (Buffer.le_of_readBytes hmask),
      Buffer.readBytes_append_left more (Buffer.le_of_readBytes hbody)]
    exact ⟨mask, hmask, body, hbody, hpayload⟩
  · rename_i hmasked
    rw [if_neg hmasked] at hread
    rw [Buffer.readBytes_append_left more (Buffer.le_of_readBytes hread), hread]

/-- A frame does not depend on what follows it. -/
theorem nextFrame_append {buf more rest : List UInt8} {f : ParsedFrame}
    (hn : nextFrame buf = some (f, rest)) : nextFrame (buf ++ more) = some (f, rest ++ more) := by
  obtain ⟨h, hh, hle, hframe⟩ := nextFrame_eq_some_iff.1 hn
  have hle' : h.total.toNat ≤ (buf ++ more).length := by
    rw [List.length_append]
    omega
  refine nextFrame_eq_some_iff.2 ⟨h, readHeader_append more hh, hle', ?_⟩
  rcases hframe with ⟨hmax, rfl, rfl⟩ | ⟨hmax, payload, hpayload, rfl, rfl⟩
  · exact Or.inl ⟨hmax, rfl, rfl⟩
  · exact Or.inr ⟨hmax, payload, payload_append more hpayload, rfl,
      (List.drop_append_of_le_length hle).symm⟩

/-- A frame that does not end the parsing takes at least its two header bytes. -/
theorem nextFrame_shrinks {buf rest : List UInt8} {f : ParsedFrame}
    (hn : nextFrame buf = some (f, rest)) (hf : f.isFinal = false) : rest.length < buf.length := by
  obtain ⟨h, hh, hle, hframe⟩ := nextFrame_eq_some_iff.1 hn
  obtain ⟨_, htwo, _⟩ := headerSize_of_readHeader hh
  rcases hframe with ⟨_, rfl, _⟩ | ⟨hmax, _, _, _, rfl⟩
  · cases hf
  · have htotal := total_toNat hh hmax
    rw [List.length_drop]
    omega

/-- Frames of the WebSocket byte stream. -/
def wsFraming : Framing UInt8 ParsedFrame where
  next := nextFrame
  final := ParsedFrame.isFinal
  next_nil := rfl
  stable := nextFrame_append
  shrinks := nextFrame_shrinks

/-! ## The parser and the reads -/

/-- Frames are taken off the front of `ws_buf` and acted on, until none is complete. -/
def parseWsFrames (conn : WsConnection) : Parsed :=
  match h : nextFrame conn.wsBuf with
  | none => ⟨conn, [], false⟩
  | some (f, rest) =>
      let conn' := { conn with wsBuf := rest }
      if hf : f.isFinal then ⟨conn', f.dispatch conn.fd, true⟩
      else
        have := nextFrame_shrinks h (by simpa using hf)
        let r := parseWsFrames conn'
        { r with events := f.dispatch conn.fd ++ r.events }
termination_by conn.wsBuf.length

/-- The branch of `handle_client` for a connection whose handshake is done: the bytes of one read
are appended to `ws_buf` and parsed. -/
def readBytes (conn : WsConnection) (bytes : List UInt8) : Parsed :=
  parseWsFrames { conn with wsBuf := conn.wsBuf ++ bytes }

/-- Successive reads, until the parsing ends for good. -/
def readAll (conn : WsConnection) : List (List UInt8) → Parsed
  | [] => ⟨conn, [], false⟩
  | bytes :: reads =>
      let p := readBytes conn bytes
      if p.ended then p
      else
        let r := readAll p.conn reads
        { r with events := p.events ++ r.events }

/-- The loop is the draining of `ws_buf`. -/
theorem parse_eq_drain (conn : WsConnection) :
    parseWsFrames conn =
      let d := drain wsFraming conn.wsBuf
      ⟨{ conn with wsBuf := d.rest }, d.frames.flatMap (ParsedFrame.dispatch conn.fd),
        d.ended⟩ := by
  induction hn : conn.wsBuf.length using Nat.strongRecOn generalizing conn with
  | ind n ih =>
      rw [parseWsFrames]
      split
      · rename_i hnext
        rw [drain_of_none (F := wsFraming) hnext]
        rfl
      · rename_i f rest hnext
        by_cases hf : f.isFinal = true
        · rw [dif_pos hf, drain_of_final (F := wsFraming) hnext hf]
          simp
        · rw [dif_neg hf, drain_of_some (F := wsFraming) hnext (by simpa [wsFraming] using hf),
            ih rest.length (hn ▸ nextFrame_shrinks hnext (by simpa using hf)) _ rfl]
          simp [Drained.cons]

/-- The reads are the feeding of their bytes to `ws_buf`. -/
theorem readAll_eq_feedAll (conn : WsConnection) (reads : List (List UInt8)) :
    readAll conn reads =
      let d := feedAll wsFraming conn.wsBuf reads
      ⟨{ conn with wsBuf := d.rest }, d.frames.flatMap (ParsedFrame.dispatch conn.fd),
        d.ended⟩ := by
  induction reads generalizing conn with
  | nil => rfl
  | cons bytes reads ih =>
      rw [readAll, readBytes, parse_eq_drain, feedAll]
      cases hend : (drain wsFraming (conn.wsBuf ++ bytes)).ended with
      | true => simp [hend]
      | false => simp [hend, ih]

/-- A connection right after its handshake. -/
def handshaken (fd : Int) (recvBuf : List UInt8) : WsConnection :=
  { fd := fd, handshakeDone := true, recvBuf := recvBuf }

/-- However the bytes after the handshake are split into reads, the callbacks, the bytes written
and the closing are the same as for one read of all of them, and unless the parsing ended for good
the same bytes are left in `ws_buf`. -/
theorem reads_eq_parse (fd : Int) (recvBuf : List UInt8) (reads : List (List UInt8)) :
    (readAll (handshaken fd recvBuf) reads).events =
        (readBytes (handshaken fd recvBuf) reads.flatten).events ∧
      (readAll (handshaken fd recvBuf) reads).ended =
        (readBytes (handshaken fd recvBuf) reads.flatten).ended ∧
      ((readBytes (handshaken fd recvBuf) reads.flatten).ended = false →
        (readAll (handshaken fd recvBuf) reads).conn =
          (readBytes (handshaken fd recvBuf) reads.flatten).conn) := by
  have hempty : wsFraming.next (handshaken fd recvBuf).wsBuf = none := rfl
  obtain ⟨hframes, hended, hrest⟩ := feedAll_eq_drain hempty reads
  rw [readAll_eq_feedAll, readBytes, parse_eq_drain]
  refine ⟨?_, hended, fun h => ?_⟩
  · simp only [hframes]
  · simp only [hrest h]

end CppMeet.Signaling.WsFrames
