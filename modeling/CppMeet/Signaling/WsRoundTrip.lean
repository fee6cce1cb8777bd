import CppMeet.Lib.BigEndian
import CppMeet.Signaling.WsFrames

/-!
# Text frames are read back

`buildWsFrame` writes a text frame without a mask, as the server sends it, and `clientFrame` one
with a masking key, as a client must. Both write the length in the shortest of the three forms. The
parser reads each of them back in front of whatever follows (`nextFrame_framed`), so a sequence
of frames in an empty `ws_buf` causes one `on_message` for each message, in order, and leaves
`ws_buf` empty (`parseWsFrames_frames`).
-/

set_option autoImplicit false

namespace CppMeet.Signaling.WsRoundTrip

open CppMeet.Lib CppMeet.Lib.BigEndian CppMeet.Lib.Frames CppMeet.Signaling.WsFrames

/-- The byte of a length `len` that is worth `256 ^ i`. -/
def lengthByte (len i : ℕ) : UInt8 := UInt8.ofNat ((len >>> (8 * i)) &&& 0xFF)

/-- An unmasked text frame, as the server sends it. -/
def buildWsFrame (msg : List UInt8) : List UInt8 :=
  -- FIN, and the opcode of a text frame
  [0x81] ++
    (if msg.length < 126 then [UInt8.ofNat msg.length]
     else if msg.length ≤ 0xFFFF then [126, lengthByte msg.length 1, lengthByte msg.length 0]
     else [127] ++ [7, 6, 5, 4, 3, 2, 1, 0].map (lengthByte msg.length)) ++
    msg

/-- A masked text frame of a client. -/
def clientFrame (key : Vector UInt8 4) (msg : List UInt8) : List UInt8 :=
  [0x81] ++
    (if msg.length < 126 then [0x80 ||| UInt8.ofNat msg.length]
     else if msg.length ≤ 0xFFFF then
       [0x80 ||| 126, lengthByte msg.length 1, lengthByte msg.length 0]
     else [0x80 ||| 127] ++ [7, 6, 5, 4, 3, 2, 1, 0].map (lengthByte msg.length)) ++
    key.toList ++ msg.mapIdx fun i b => b ^^^ key.toList.getD (i % 4) 0

/-- A message and the way it is framed. -/
inductive Framed where
  | server (msg : List UInt8)
  | client (key : Vector UInt8 4) (msg : List UInt8)

namespace Framed

/-- The message that is framed. -/
def msg : Framed → List UInt8
  | server msg => msg
  | client _ msg => msg

/-- The bytes of the frame. -/
def bytes : Framed → List UInt8
  | server msg => buildWsFrame msg
  | client key msg => clientFrame key msg

end Framed

/-! ## The length -/

/-- The length forms of both frames; `maskBit` is the top bit of the second byte. -/
def lengthForm (maskBit : UInt8) (len : ℕ) : List UInt8 :=
  if len < 126 then [maskBit ||| UInt8.ofNat len]
  else if len ≤ 0xFFFF then [maskBit ||| 126, lengthByte len 1, lengthByte len 0]
  else [maskBit ||| 127] ++ [7, 6, 5, 4, 3, 2, 1, 0].map (lengthByte len)

/-- The bit that announces a masking key. -/
def maskBit (masked : Bool) : UInt8 := if masked then 0x80 else 0x00

/-- The second byte of a frame whose length is below 126. -/
theorem secondByte_short (masked : Bool) {n : ℕ} (hn : n < 126) :
    ((maskBit masked ||| UInt8.ofNat n) &&& 0x80 != 0) = masked ∧
      ((maskBit masked ||| UInt8.ofNat n) &&& 0x7F).toUInt64 = UInt64.ofNat n ∧
      UInt64.ofNat n ≠ 126 ∧ UInt64.ofNat n ≠ 127 := by
  have hall : ∀ masked : Bool, ∀ n < 126,
      ((maskBit masked ||| UInt8.ofNat n) &&& 0x80 != 0) = masked ∧
        ((maskBit masked ||| UInt8.ofNat n) &&& 0x7F).toUInt64 = UInt64.ofNat n ∧
        UInt64.ofNat n ≠ 126 ∧ UInt64.ofNat n ≠ 127 := by
    decide +kernel
  exact hall masked n hn

/-- The second byte that announces a 16-bit length, and a 64-bit length. -/
theorem secondByte_extended (masked : Bool) :
    (((maskBit masked ||| 126) &&& 0x80 != 0) = masked ∧
        ((maskBit masked ||| 126) &&& 0x7F).toUInt64 = 126) ∧
      ((maskBit masked ||| 127) &&& 0x80 != 0) = masked ∧
        ((maskBit masked ||| 127) &&& 0x7F).toUInt64 = 127 := by
  cases masked with
  | true => decide
  | false => decide

/-- One more byte of a big-endian length. -/
theorem shift_or_lengthByte {len : ℕ} (hlen : len < 2 ^ 62) (i : ℕ) :
    (UInt64.ofNat (len >>> (8 * (i + 1))) <<< 8) ||| (lengthByte len i).toUInt64 =
      UInt64.ofNat (len >>> (8 * i)) := by
  have hle : len >>> (8 * i) ≤ len := Nat.shiftRight_le len (8 * i)
  have hshift : len >>> (8 * (i + 1)) = (len >>> (8 * i)) / 256 := by
    rw [Nat.mul_succ, Nat.shiftRight_add, Nat.shiftRight_eq_div_pow _ 8]
  -- the length cut behind this byte is `q`, so the claim is that `q` is put together again
  rw [lengthByte, hshift]
  generalize len >>> (8 * i) = q at hle
  have hor := or_eq_add_of_lt (a := q / 256) 8 (show q % 256 < 2 ^ 8 by omega)
  rw [← UInt64.toNat_inj]
  simp only [UInt64.toNat_or, UInt64.toNat_shiftLeft, UInt64.toNat_ofNat', UInt8.toNat_toUInt64,
    UInt8.toNat_ofNat', UInt64.toNat_ofNat, Nat.shiftLeft_eq, and_255]
  rw [Nat.mod_eq_of_lt (by omega : q / 256 < 2 ^ 64), Nat.mod_eq_of_lt (by omega : q < 2 ^ 64),
    Nat.mod_eq_of_lt (by omega : q % 256 < 2 ^ 8)]
  norm_num at hor ⊢
  rw [Nat.mod_eq_of_lt (by omega), hor]
  omega

theorem shiftRight_eq_zero {len n : ℕ} (h : len < 2 ^ n) : len >>> n = 0 := by
  rw [Nat.shiftRight_eq_div_pow, Nat.div_eq_of_lt h]

theorem two_lengthBytes {len : ℕ} (h16 : len ≤ 0xFFFF) :
    ((lengthByte len 1).toUInt64 <<< 8) ||| (lengthByte len 0).toUInt64 = UInt64.ofNat len := by
  have hhigh := shift_or_lengthByte (show len < 2 ^ 62 by omega) 1
  have hlow := shift_or_lengthByte (show len < 2 ^ 62 by omega) 0
  rw [shiftRight_eq_zero (show len < 2 ^ (8 * 2) by omega)] at hhigh
  have hbyte : (lengthByte len 1).toUInt64 = UInt64.ofNat (len >>> (8 * 1)) := by
    rw [← hhigh]
    exact UInt64.zero_or.symm
  rw [hbyte]
  exact hlow

/-- The loop over the eight bytes of a 64-bit length, the most significant one first. -/
theorem foldl_lengthByte {len : ℕ} (hlen : len < 2 ^ 62) :
    ([7, 6, 5, 4, 3, 2, 1, 0].map (lengthByte len)).foldl
        (fun (acc : UInt64) b => (acc <<< 8) ||| b.toUInt64) 0 = UInt64.ofNat len := by
  have hzero : UInt64.ofNat (len >>> (8 * 8)) = 0 := by rw [shiftRight_eq_zero (by omega)]; rfl
  -- one byte after another, from the length without its last eight bytes
  simp only [List.map_cons, List.map_nil, List.foldl_cons, List.foldl_nil]
  rw [← hzero]
  simp only [shift_or_lengthByte hlen]
  rfl

/-- The header of a text frame. -/
theorem readHeader_lengthForm (masked : Bool) {len : ℕ} (hlen : len < 2 ^ 62) (more : List UInt8) :
    ∃ h, readHeader (0x81 :: (lengthForm (maskBit masked) len ++ more)) = some (some h) ∧
      h.opcode = 0x1 ∧ h.masked = masked ∧ h.payloadLen = UInt64.ofNat len ∧
      h.headerSize.toNat = 1 + (lengthForm (maskBit masked) len).length := by
  -- the three forms of the length, with a header of 2, 4 or 10 bytes
  obtain ⟨⟨hmask126, h126⟩, hmask127, h127⟩ := secondByte_extended masked
  unfold lengthForm
  by_cases h7 : len < 126
  · obtain ⟨hmask, hlow, hne126, hne127⟩ := secondByte_short masked h7
    simp only [if_pos h7]
    refine ⟨⟨0x1, masked, UInt64.ofNat len, 2⟩, ?_, rfl, rfl, rfl, rfl⟩
    refine readHeader_eq_some_iff.2 ⟨_, _, rfl, rfl, rfl, hmask.symm, Or.inr (Or.inr ?_)⟩
    rw [hlow]
    exact ⟨hne126, hne127, rfl, rfl⟩
  · simp only [if_neg h7]
    by_cases h16 : len ≤ 0xFFFF
    · simp only [if_pos h16]
      refine ⟨⟨0x1, masked, UInt64.ofNat len, 4⟩, ?_, rfl, rfl, rfl, rfl⟩
      exact readHeader_eq_some_iff.2 ⟨_, _, rfl, rfl, rfl, hmask126.symm,
        Or.inl ⟨h126, rfl, _, _, rfl, rfl, (two_lengthBytes h16).symm⟩⟩
    · simp only [if_neg h16]
      refine ⟨⟨0x1, masked, UInt64.ofNat len, 10⟩, ?_, rfl, rfl, rfl, rfl⟩
      have hbytes := Buffer.readBytes_append [0x81, maskBit masked ||| 127]
        ([7, 6, 5, 4, 3, 2, 1, 0].map (lengthByte len)) more
      exact readHeader_eq_some_iff.2 ⟨_, _, rfl, rfl, rfl, hmask127.symm,
        Or.inr (Or.inl ⟨h127, rfl, _, hbytes, (foldl_lengthByte hlen).symm⟩)⟩

/-! ## One frame -/

namespace Framed

/-- Whether the frame has a masking key. -/
def masked : Framed → Bool
  | server _ => false
  | client _ _ => true

/-- The masking key as it stands in the frame. -/
def keyBytes : Framed → List UInt8
  | server _ => []
  | client key _ => key.toList

/-- The payload as it stands in the frame. -/
def body : Framed → List UInt8
  | server msg => msg
  | client key msg => msg.mapIdx fun i b => b ^^^ key.toList.getD (i % 4) 0

/-- A masked frame has a key of four bytes. -/
theorem length_keyBytes (f : Framed) : f.keyBytes.length = if f.masked then 4 else 0 := by
  cases f with
  | server msg => rfl
  | client key msg => exact Vector.length_toList

theorem length_body (f : Framed) : f.body.length = f.msg.length := by
  cases f with
  | server msg => rfl
  | client key msg => exact List.length_mapIdx

/-- The payload, once the mask is taken off. -/
theorem body_unmasked (f : Framed) :
    (if f.masked then f.body.mapIdx fun i b => b ^^^ f.keyBytes.getD (i % 4) 0 else f.body) =
      f.msg := by
  cases f with
  | server msg => rfl
  | client key msg =>
      rw [masked, if_pos rfl, body, keyBytes, List.mapIdx_mapIdx]
      apply List.ext_getElem
      · exact List.length_mapIdx
      · intro i _ _
        -- the mask is its own inverse
        rw [List.getElem_mapIdx, Function.comp_apply, UInt8.xor_assoc, UInt8.xor_self,
          UInt8.xor_zero]
        rfl

/-- The bytes of a frame: the first byte, the length, the key and the payload. -/
theorem bytes_eq (f : Framed) :
    f.bytes =
      0x81 :: (lengthForm (maskBit f.masked) f.msg.length ++ (f.keyBytes ++ f.body)) := by
  cases f with
  | server msg =>
      have hform : lengthForm (maskBit false) msg.length =
          if msg.length < 126 then [UInt8.ofNat msg.length]
          else if msg.length ≤ 0xFFFF then [126, lengthByte msg.length 1, lengthByte msg.length 0]
          else [127] ++ [7, 6, 5, 4, 3, 2, 1, 0].map (lengthByte msg.length) := by
        simp only [lengthForm, maskBit, Bool.false_eq_true, if_false, UInt8.zero_or]
      rw [bytes, buildWsFrame, ← hform]
      rfl
  | client key msg =>
      change clientFrame key msg = _
      rw [clientFrame, List.append_assoc]
      rfl

end Framed

/-- The payload read from behind a header of `front.length` bytes. -/
theorem payload_framed (f : Framed) {h : Header} {front : List UInt8} (more : List UInt8)
    (hmasked : h.masked = f.masked) (hlen : h.payloadLen.toNat = f.msg.length)
    (hsize : h.headerSize.toNat = front.length) :
    h.payload (front ++ (f.keyBytes ++ (f.body ++ more))) = some f.msg := by
  have hlenBody : h.payloadLen.toNat = f.body.length := by rw [hlen, f.length_body]
  have hunmasked := f.body_unmasked
  have hkey := Buffer.readBytes_append front f.keyBytes (f.body ++ more)
  have hbody := Buffer.readBytes_append (front ++ f.keyBytes) f.body more
  rw [List.length_append, List.append_assoc] at hbody
  rw [f.length_keyBytes] at hkey hbody
  unfold Header.payload
  rw [hmasked, hsize, hlenBody]
  cases hm : f.masked with
  | true =>
      rw [hm, if_pos rfl] at hunmasked hkey hbody
      simp only [if_true, hkey, hbody, Option.bind_eq_bind, Option.bind_some, hunmasked]
      rfl
  | false =>
      rw [hm, if_neg Bool.false_ne_true] at hunmasked hbody
      rw [if_neg Bool.false_ne_true]
      exact hbody.trans (congrArg some hunmasked)

/-- A frame is read back in front of whatever follows. -/
theorem nextFrame_framed (f : Framed) (hlen : f.msg.length < 2 ^ 62) (more : List UInt8) :
    nextFrame (f.bytes ++ more) = some (.frame 0x1 (UInt64.ofNat f.msg.length) f.msg, more) := by
  have hbytes : f.bytes ++ more =
      0x81 :: (lengthForm (maskBit f.masked) f.msg.length ++ (f.keyBytes ++ (f.body ++ more))) := by
    rw [f.bytes_eq]
    simp only [List.cons_append, List.append_assoc]
  obtain ⟨h, hh, hopcode, hmasked, hpayloadLen, hsize⟩ :=
    readHeader_lengthForm f.masked hlen (f.keyBytes ++ (f.body ++ more))
  rw [← hbytes] at hh
  have hlenNat : h.payloadLen.toNat = f.msg.length := by
    rw [hpayloadLen, UInt64.toNat_ofNat']
    exact Nat.mod_eq_of_lt (by omega)
  have hfits : h.payloadLen.toNat ≤ maxStringSize := by
    rw [hlenNat, maxStringSize]
    omega
  -- below `2 ^ 62` bytes the size of the frame does not wrap
  have htotal : h.total.toNat = f.bytes.length := by
    have hmaskSize : h.maskSize.toNat = f.keyBytes.length := by
      rw [f.length_keyBytes, Header.maskSize, hmasked]
      cases f.masked with
      | true => rfl
      | false => rfl
    rw [total_toNat hh hfits, hmaskSize, hlenNat, hsize, f.bytes_eq]
    simp only [List.length_cons, List.length_append, f.length_body]
    omega
  have hpayload : h.payload (f.bytes ++ more) = some f.msg := by
    rw [hbytes]
    have hfront : h.headerSize.toNat =
        (0x81 :: lengthForm (maskBit f.masked) f.msg.length).length := by
      rw [hsize, List.length_cons, Nat.add_comm]
    exact payload_framed f more hmasked hlenNat hfront
  refine nextFrame_eq_some_iff.2 ⟨h, hh, ?_, Or.inr ⟨hfits, f.msg, hpayload, ?_, ?_⟩⟩
  · rw [htotal, List.length_append]
    exact Nat.le_add_right _ _
  · rw [hopcode, hpayloadLen]
  · rw [htotal, List.drop_left]

/-! ## Many frames -/

/-- Whatever text messages of fewer than `2 ^ 62` bytes are framed, each by the server or by a
client with a key of its own, and appended to an empty `ws_buf`: parsing hands exactly these
messages to `on_message`, in this order, and leaves `ws_buf` empty. -/
theorem parseWsFrames_frames (conn : WsConnection) (hempty : conn.wsBuf = [])
    (frames : List Framed) (hlen : ∀ f ∈ frames, f.msg.length < 2 ^ 62) :
    parseWsFrames { conn with wsBuf := conn.wsBuf ++ frames.flatMap Framed.bytes } =
      ⟨{ conn with wsBuf := [] }, frames.map fun f => .onMessage conn.fd f.msg, false⟩ := by
  have hdrain : drain wsFraming (frames.flatMap Framed.bytes) =
      ⟨frames.map fun f => .frame 0x1 (UInt64.ofNat f.msg.length) f.msg, [], false⟩ := by
    apply drain_flatMap
    · intro f hf more
      exact nextFrame_framed f (hlen f hf) more
    · intro f _
      rfl
  rw [hempty, List.nil_append, parse_eq_drain]
  simp only [hdrain, List.flatMap_map]
  congr 1
  exact (List.map_eq_flatMap (f := fun f : Framed => WsEvent.onMessage conn.fd f.msg)).symm

/-- A masked and a plain frame, in one buffer. -/
def greeting : List Framed := [.client #v[1, 2, 3, 4] [0x68, 0x69], .server []]

theorem parseWsFrames_frames_greeting :
    parseWsFrames { handshaken 5 [] with wsBuf := greeting.flatMap Framed.bytes } =
      ⟨handshaken 5 [], [.onMessage 5 [0x68, 0x69], .onMessage 5 []], false⟩ :=
  parseWsFrames_frames (handshaken 5 []) rfl greeting (by
    intro f hf
    rcases List.mem_cons.1 hf with rfl | hf
    · simp [Framed.msg]
    · obtain rfl := List.mem_singleton.1 hf
      simp [Framed.msg])

end CppMeet.Signaling.WsRoundTrip
