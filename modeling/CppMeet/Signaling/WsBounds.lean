import CppMeet.Signaling.WsFrames

/-!
# Bounds of the frame parser

The completeness check of the parser compares the buffered bytes with `total`, which is computed
modulo 2^64. A payload length close to 2^64 makes it wrap to a number below 16, and the check lets
the frame through. `Sound` says that a turn of the parsing loop stays inside the buffer and ends
without an exception.

A turn is sound exactly when the size of the frame does not wrap to a number of bytes that are there
(`sound_iff`).
-/

set_option autoImplicit false

namespace CppMeet.Signaling.WsBounds

open CppMeet.Lib.Frames CppMeet.Signaling.WsFrames

/-! ## One turn -/

/-- The size of the frame over unbounded numbers. -/
def frameSize (h : Header) : ℕ := h.headerSize.toNat + h.maskSize.toNat + h.payloadLen.toNat

/-- What one turn of the loop should do. -/
structure Sound (buf : List UInt8) : Prop where
  inside : turn buf ≠ none
  payload : ∀ opcode payloadLen payload rest,
    nextFrame buf = some (.frame opcode payloadLen payload, rest) → payload.length ≤ buf.length
  quiet : ∀ rest, nextFrame buf ≠ some (.lengthError, rest)
  complete : ∀ h, readHeader buf = some (some h) → h.total.toNat ≤ buf.length →
    frameSize h ≤ buf.length

/-- The size of the frame at the front wraps, to no more bytes than are there. -/
def Overflows (buf : List UInt8) : Prop :=
  ∃ h, readHeader buf = some (some h) ∧ 2 ^ 64 ≤ frameSize h ∧ frameSize h - 2 ^ 64 ≤ buf.length

section Turn

variable {buf : List UInt8} {h : Header}

theorem maskSize_toNat_le : h.maskSize.toNat ≤ 4 := by
  rw [Header.maskSize]
  split
  · decide
  · decide

/-- The parser computes the size modulo 2^64. -/
theorem total_toNat_eq_mod : h.total.toNat = frameSize h % 2 ^ 64 := by
  rw [Header.total, UInt64.toNat_add, UInt64.toNat_add, frameSize]
  omega

/-- A size exceeds 2^64 by at most the header and the key. -/
theorem frameSize_lt (hh : readHeader buf = some (some h)) : frameSize h < 2 ^ 64 + 14 := by
  obtain ⟨_, _, hsize⟩ := headerSize_of_readHeader hh
  have hmask := maskSize_toNat_le (h := h)
  have hlen := h.payloadLen.toNat_lt
  rw [frameSize]
  omega

/-- Without overflow the check compares the size of the frame itself. -/
theorem total_of_not_overflows (hh : readHeader buf = some (some h)) (hover : ¬Overflows buf)
    (hle : h.total.toNat ≤ buf.length) : h.total.toNat = frameSize h := by
  have htotal := total_toNat_eq_mod (h := h)
  have hlt := frameSize_lt hh
  have hsmall : frameSize h < 2 ^ 64 := by
    by_contra hge
    exact hover ⟨h, hh, by omega, by omega⟩
  rw [htotal, Nat.mod_eq_of_lt hsmall]

theorem sound_of_not_overflows (hfits : buf.length ≤ maxStringSize) (hover : ¬Overflows buf) :
    Sound buf := by
  have hcomplete : ∀ h, readHeader buf = some (some h) → h.total.toNat ≤ buf.length →
      frameSize h ≤ buf.length := by
    intro h hh hle
    rw [← total_of_not_overflows hh hover hle]
    exact hle
  refine ⟨?_, ?_, ?_, hcomplete⟩
  · obtain ⟨result, hresult⟩ := exists_turn buf
    exact Option.ne_none_iff_exists'.2 ⟨result, hresult⟩
  · intro opcode payloadLen payload rest hnext
    obtain ⟨h, hh, hle, ⟨_, heq, _⟩ | ⟨_, _, hread, heq, _⟩⟩ := nextFrame_eq_some_iff.1 hnext
    · cases heq
    · -- the payload is part of the frame
      have hsize := hcomplete h hh hle
      cases heq
      rw [length_of_payload hread]
      rw [frameSize] at hsize
      omega
  · intro rest hnext
    obtain ⟨h, hh, hle, ⟨hmax, _, _⟩ | ⟨_, _, _, heq, _⟩⟩ := nextFrame_eq_some_iff.1 hnext
    · -- a payload that is there fits a string
      have hsize := hcomplete h hh hle
      rw [frameSize] at hsize
      omega
    · cases heq

theorem not_sound_of_overflows (hfits : buf.length ≤ maxStringSize) (hover : Overflows buf) :
    ¬Sound buf := by
  rintro ⟨_, _, _, hcomplete⟩
  obtain ⟨h, hh, hwrap, hle⟩ := hover
  -- the wrapped size passes the check, but the frame does not fit
  have htotal := total_toNat_eq_mod (h := h)
  have hlt := frameSize_lt hh
  have hsize := hcomplete h hh (by omega)
  rw [maxStringSize] at hfits
  omega

/-- A turn is sound exactly without overflow. -/
theorem sound_iff (hfits : buf.length ≤ maxStringSize) : Sound buf ↔ ¬Overflows buf :=
  ⟨fun hsound hover => not_sound_of_overflows hfits hover hsound, sound_of_not_overflows hfits⟩

end Turn

/-! ## All turns -/

/-- The reads of a connection after its handshake. `ws_buf` never exceeds what a vector can hold. -/
structure Reads where
  chunks : List (List UInt8)
  fits : ∀ buf ∈ feedTurns wsFraming [] chunks, buf.length ≤ maxStringSize

/-- The contents of `ws_buf` at the beginning of each turn of the parsing loop. -/
def Reads.turns (reads : Reads) : List (List UInt8) := feedTurns wsFraming [] reads.chunks

/-- What the parser does follows from the frames found in these turns. -/
theorem events_readAll (fd : Int) (recvBuf : List UInt8) (reads : Reads) :
    (readAll (handshaken fd recvBuf) reads.chunks).events =
      (reads.turns.filterMap fun buf => (nextFrame buf).map Prod.fst).flatMap
        (ParsedFrame.dispatch fd) := by
  rw [readAll_eq_feedAll]
  exact congrArg (List.flatMap _) (frames_feedTurns (F := wsFraming) [] reads.chunks).symm

/-- All turns of a run are sound exactly when no frame in it has a size that wraps to a number of
buffered bytes. -/
theorem parse_sound_iff (reads : Reads) :
    (∀ buf ∈ reads.turns, Sound buf) ↔ ∀ buf ∈ reads.turns, ¬Overflows buf := by
  constructor
  · intro hsound buf hbuf
    exact (sound_iff (reads.fits buf hbuf)).1 (hsound buf hbuf)
  · intro hover buf hbuf
    exact (sound_iff (reads.fits buf hbuf)).2 (hover buf hbuf)

/-- A ten-byte header that announces 2^64 - 1 bytes of payload. -/
def hugeFrame : List UInt8 := [0x81, 0x7F, 0xFF, 0xFF, 0xFF, 0xFF, 0xFF, 0xFF, 0xFF, 0xFF]

/-- The header passes the check, and its payload is too long for a string. -/
theorem nextFrame_hugeFrame : nextFrame hugeFrame = some (.lengthError, hugeFrame) := rfl

theorem feedTurns_hugeFrame : feedTurns wsFraming [] [hugeFrame] = [hugeFrame] := by
  have hnext : wsFraming.next ([] ++ hugeFrame) = some (.lengthError, hugeFrame) :=
    nextFrame_hugeFrame
  rw [feedTurns, drain_of_final hnext rfl, turns_of_final hnext rfl]
  rfl

/-- The client sends that header and nothing else. -/
def hugeReads : Reads where
  chunks := [hugeFrame]
  fits := by
    rw [feedTurns_hugeFrame]
    decide

/-- The check lets the frame through, because its size wraps to 9, and the string constructor
throws. -/
theorem huge_frame_throws : ¬∀ buf ∈ hugeReads.turns, Sound buf := by
  intro hsound
  have hmem : hugeFrame ∈ hugeReads.turns := by
    rw [Reads.turns, hugeReads, feedTurns_hugeFrame]
    exact List.mem_cons_self
  exact (hsound hugeFrame hmem).quiet hugeFrame nextFrame_hugeFrame

end CppMeet.Signaling.WsBounds
