import CppMeet.Signaling.WsRoundTrip

/-!
# The answer to a ping

The server answers a ping by hand: a byte `0x8A`, the low seven bits of the payload length, and the
payload. The low seven bits are the length as long as it is at most 125. From 126 on they are cut
off, or announce one of the extended length forms, and the answer is not the frame of a pong
(`isPong_reply_iff`).
-/

set_option autoImplicit false

namespace CppMeet.Signaling.Pong

open CppMeet.Lib.Frames CppMeet.Signaling.WsFrames CppMeet.Signaling.WsRoundTrip

/-- All bytes written, in order. -/
def written (events : List WsEvent) : List UInt8 :=
  events.flatMap fun
    | .write _ bytes => bytes
    | _ => []

/-- The bytes are exactly one final unmasked pong with the given payload. -/
structure IsPong (bytes payload : List UInt8) : Prop where
  fin : bytes.getD 0 0 &&& 0x80 ≠ 0
  unmasked : ∃ h, readHeader bytes = some (some h) ∧ h.masked = false
  frame : ∃ len, nextFrame bytes = some (.frame 0xA len payload, [])

/-- The bytes that answer a frame. -/
def reply (fd : Int) (f : ParsedFrame) : List UInt8 := written (f.dispatch fd)

/-- The two bytes of the header, and the payload. -/
theorem reply_ping (fd : Int) (len : UInt64) (payload : List UInt8) :
    reply fd (.frame 0x9 len payload) = 0x8A :: (len &&& 0x7F).toUInt8 :: payload := by
  rw [reply, ParsedFrame.dispatch, if_neg (by decide), if_neg (by decide), if_pos rfl]
  cases payload with
  | nil => rfl
  | cons b payload => simp [written]

/-- A header of two bytes has the length in its second byte. -/
theorem payloadLen_lt_of_headerSize {buf : List UInt8} {h : Header}
    (hh : readHeader buf = some (some h)) (hsize : h.headerSize.toNat = 2) :
    h.payloadLen.toNat < 126 := by
  obtain ⟨b0, b1, -, -, -, -, hlen⟩ := readHeader_eq_some_iff.1 hh
  rcases hlen with ⟨-, hfour, -⟩ | ⟨-, hten, -⟩ | ⟨h126, h127, -, hlen⟩
  · rw [hfour] at hsize
    exact absurd hsize (by decide)
  · rw [hten] at hsize
    exact absurd hsize (by decide)
  · have hlow : (b1 &&& 0x7F).toUInt64.toNat < 128 := by
      rw [UInt8.toNat_toUInt64, UInt8.toNat_and]
      exact Nat.and_lt_two_pow _ (show 127 < 2 ^ 7 by decide)
    rw [Ne, ← UInt64.toNat_inj] at h126 h127
    change ¬_ = 126 at h126
    change ¬_ = 127 at h127
    rw [hlen]
    omega

/-! ## One ping -/

/-- A payload of at most 125 bytes comes back as a pong, whatever follows it. -/
theorem nextFrame_reply (fd : Int) {len : UInt64} {payload : List UInt8}
    (hlen : payload.length = len.toNat) (hshort : payload.length ≤ 125) (more : List UInt8) :
    readHeader (reply fd (.frame 0x9 len payload) ++ more) = some (some ⟨0xA, false, len, 2⟩) ∧
      nextFrame (reply fd (.frame 0x9 len payload) ++ more) =
        some (.frame 0xA len payload, more) := by
  have hofNat : len = UInt64.ofNat payload.length := by rw [hlen, UInt64.ofNat_toNat]
  -- below 126 the length byte is the length itself, unmasked
  have hsecond : (len &&& 0x7F).toUInt8 = maskBit false ||| UInt8.ofNat payload.length := by
    have hall : ∀ n < 126, (UInt64.ofNat n &&& 0x7F).toUInt8 = maskBit false ||| UInt8.ofNat n := by
      decide +kernel
    rw [hofNat]
    exact hall _ (by omega)
  obtain ⟨hmask, hlow, hne126, hne127⟩ :=
    secondByte_short false (show payload.length < 126 by omega)
  have hheader : readHeader (reply fd (.frame 0x9 len payload) ++ more) =
      some (some ⟨0xA, false, len, 2⟩) := by
    rw [reply_ping]
    refine readHeader_eq_some_iff.2 ⟨_, _, rfl, rfl, rfl, ?_, Or.inr (Or.inr ?_)⟩
    · rw [hsecond, hmask]
    · rw [hsecond, hlow]
      exact ⟨hne126, hne127, rfl, hofNat⟩
  have hmax : len.toNat ≤ maxStringSize := by
    rw [maxStringSize]
    omega
  have htotal := total_toNat hheader hmax
  refine ⟨hheader, nextFrame_eq_some_iff.2 ⟨_, hheader, ?_, Or.inr ⟨hmax, payload, ?_, rfl, ?_⟩⟩⟩
  · rw [htotal, reply_ping]
    change 2 + 0 + len.toNat ≤ _
    simp only [List.length_append, List.length_cons]
    omega
  · -- the frame is not masked, so its payload is read as it was written
    have hpayload : Header.payload ⟨0xA, false, len, 2⟩
        ([0x8A, (len &&& 0x7F).toUInt8] ++ ([] ++ (payload ++ more))) = payload :=
      payload_framed (.server payload) more rfl hlen.symm rfl
    rw [reply_ping]
    exact hpayload
  · rw [htotal, reply_ping]
    change more = List.drop (2 + 0 + len.toNat) _
    rw [← hlen, Nat.add_zero, Nat.add_comm]
    exact (List.drop_left).symm

/-- The payload of a frame that was taken off a buffer has the announced length. -/
theorem length_of_nextFrame {buf rest payload : List UInt8} {opcode : UInt8} {len : UInt64}
    (hnext : nextFrame buf = some (.frame opcode len payload, rest)) :
    payload.length = len.toNat := by
  obtain ⟨h, -, -, hframe⟩ := nextFrame_eq_some_iff.1 hnext
  rcases hframe with ⟨-, hf, -⟩ | ⟨-, _, hread, hf, -⟩
  · cases hf
  · obtain ⟨-, rfl, rfl⟩ := ParsedFrame.frame.inj hf
    exact length_of_payload hread

/-- The answer to a ping is a pong exactly for payloads of at most 125 bytes. -/
theorem isPong_reply_iff (fd : Int) {buf rest : List UInt8} {len : UInt64} {payload : List UInt8}
    (hping : nextFrame buf = some (.frame 0x9 len payload, rest)) :
    IsPong (reply fd (.frame 0x9 len payload)) payload ↔ payload.length ≤ 125 := by
  have hlen := length_of_nextFrame hping
  constructor
  · rintro ⟨-, ⟨h, hh, hunmasked⟩, len', hnext⟩
    obtain ⟨h', hh', hle, hframe⟩ := nextFrame_eq_some_iff.1 hnext
    obtain rfl := Option.some.inj (Option.some.inj (hh.symm.trans hh'))
    rcases hframe with ⟨-, hf, -⟩ | ⟨hmax, _, hread, hf, hrest⟩
    · cases hf
    · -- the frame takes up all bytes, so its header has two of them
      obtain ⟨-, rfl, rfl⟩ := ParsedFrame.frame.inj hf
      have hsame := length_of_payload hread
      have htotal := total_toNat hh hmax
      have hall := List.drop_eq_nil_iff.1 hrest.symm
      rw [Header.maskSize, hunmasked] at htotal
      change _ = _ + 0 + _ at htotal
      rw [reply_ping] at hle hall
      simp only [List.length_cons] at hle hall
      have hsmall := payloadLen_lt_of_headerSize hh (by omega)
      omega
  · intro hshort
    obtain ⟨hheader, hframe⟩ := nextFrame_reply fd hlen hshort []
    rw [List.append_nil] at hheader hframe
    refine ⟨?_, ⟨_, hheader, rfl⟩, len, hframe⟩
    rw [reply_ping]
    exact show (0x8A : UInt8) &&& 0x80 ≠ 0 by decide

/-! ## The outgoing stream -/

/-- The announced length and the payload of a ping. -/
def asPing : ParsedFrame → Option (UInt64 × List UInt8)
  | .frame opcode len payload => if opcode = 0x9 then some (len, payload) else none
  | .lengthError => none

/-- A frame that is taken for a ping is one. -/
theorem eq_of_asPing {f : ParsedFrame} {len : UInt64} {payload : List UInt8}
    (h : asPing f = some (len, payload)) : f = .frame 0x9 len payload := by
  cases f with
  | lengthError => cases h
  | frame opcode len' payload' =>
      rw [asPing] at h
      split_ifs at h with hping
      obtain ⟨rfl, rfl⟩ := Prod.mk.inj (Option.some.inj h)
      rw [hping]

/-- Frames other than pings are not answered. -/
theorem reply_of_asPing_eq_none {fd : Int} {f : ParsedFrame} (h : asPing f = none) :
    reply fd f = [] := by
  rw [reply, written, List.flatMap_eq_nil_iff]
  intro event hevent
  rcases dispatch_cases hevent with ⟨len, payload, rfl, rfl⟩ | ⟨len, payload, rfl, rfl⟩ |
    ⟨len, payload, bytes, rfl, -⟩ | ⟨rfl, rfl⟩
  · rfl
  · rfl
  · cases h
  · rfl

theorem written_dispatch (fd : Int) (frames : List ParsedFrame) :
    written (frames.flatMap (ParsedFrame.dispatch fd)) =
      (frames.filterMap asPing).flatMap fun p => reply fd (.frame 0x9 p.1 p.2) := by
  induction frames with
  | nil => rfl
  | cons f frames ih =>
      have hsplit : written ((f :: frames).flatMap (ParsedFrame.dispatch fd)) =
          reply fd f ++ written (frames.flatMap (ParsedFrame.dispatch fd)) := List.flatMap_append
      rw [hsplit, ih, List.filterMap_cons]
      cases hp : asPing f with
      | none => rw [reply_of_asPing_eq_none hp, List.nil_append]
      | some p => rw [eq_of_asPing hp, List.flatMap_cons]

/-- A ping that the parser takes off a buffer, masked or not, is answered by exactly one final
unmasked pong with its payload if and only if this has at most 125 bytes. Where all pings are of
this kind, the bytes written while a buffer is parsed are one pong for each of them, in order, and
nothing else. -/
theorem pong_answers (fd : Int) :
    (∀ buf rest len payload, nextFrame buf = some (.frame 0x9 len payload, rest) →
      (IsPong (reply fd (.frame 0x9 len payload)) payload ↔ payload.length ≤ 125)) ∧
    ∀ conn : WsConnection,
      (∀ p ∈ (drain wsFraming conn.wsBuf).frames.filterMap asPing, p.2.length ≤ 125) →
      drain wsFraming (written (parseWsFrames conn).events) =
        ⟨((drain wsFraming conn.wsBuf).frames.filterMap asPing).map fun p => .frame 0xA p.1 p.2,
          [], false⟩ := by
  refine ⟨fun _ _ _ _ => isPong_reply_iff fd, fun conn hshort => ?_⟩
  rw [parse_eq_drain]
  dsimp only
  rw [written_dispatch]
  apply drain_flatMap
  · intro p hp more
    obtain ⟨f, hf, hping⟩ := List.mem_filterMap.1 hp
    rw [eq_of_asPing hping] at hf
    obtain ⟨buf, rest, hnext⟩ := exists_next_of_mem hf
    exact (nextFrame_reply conn.fd (length_of_nextFrame hnext) (hshort p hp) more).2
  · intro p _
    rfl

/-- An unmasked ping of 126 bytes. -/
theorem nextFrame_ping {payload : List UInt8} (hlen : payload.length = 126) :
    nextFrame ([0x89, 126, 0, 126] ++ payload) = some (.frame 0x9 126 payload, []) := by
  have hheader : readHeader ([0x89, 126, 0, 126] ++ payload) = some (some ⟨0x9, false, 126, 4⟩) :=
    readHeader_eq_some_iff.2
      ⟨_, _, rfl, rfl, rfl, rfl, Or.inl ⟨by decide, rfl, 0, 126, rfl, rfl, by decide⟩⟩
  have hpayload : Header.payload ⟨0x9, false, 126, 4⟩
      ([0x89, 126, 0, 126] ++ ([] ++ (payload ++ []))) = some payload :=
    payload_framed (.server payload) [] rfl hlen.symm rfl
  have htotal : Header.total ⟨0x9, false, 126, 4⟩ = 130 := by decide
  rw [List.append_nil, List.nil_append] at hpayload
  refine nextFrame_eq_some_iff.2 ⟨_, hheader, ?_, Or.inr ⟨by decide, payload, hpayload, rfl, ?_⟩⟩
  · rw [htotal, List.length_append, hlen]
    decide
  · rw [htotal, eq_comm, List.drop_eq_nil_iff, List.length_append, hlen]
    decide

/-- The answer to a ping of 126 bytes announces a 16-bit length. -/
theorem pong_long_ping :
    ¬ ∀ (fd : Int) (buf rest : List UInt8) (len : UInt64) (payload : List UInt8),
      nextFrame buf = some (.frame 0x9 len payload, rest) →
        IsPong (reply fd (.frame 0x9 len payload)) payload := by
  intro hall
  have hlen : (List.replicate 126 (7 : UInt8)).length = 126 := List.length_replicate
  have hping := nextFrame_ping hlen
  have hlong := (isPong_reply_iff 5 hping).1 (hall 5 _ _ _ _ hping)
  rw [hlen] at hlong
  exact absurd hlong (by decide)

end CppMeet.Signaling.Pong
