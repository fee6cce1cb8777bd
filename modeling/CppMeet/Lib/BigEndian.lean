import Mathlib.Data.Nat.Bitwise
import Mathlib.Tactic.NormNum

/-!
# Big-endian words

`be16` and `be32` assemble machine words from bytes with shifts and disjunctions, most significant
byte first; `put16` and `put32` take words apart. Each pair is a bijection, and the numeric values
are the base-256 ones.
-/

set_option autoImplicit false

namespace CppMeet.Lib.BigEndian

/-- The number that two bytes stand for. -/
def be16 (b0 b1 : UInt8) : UInt16 := (b0.toUInt16 <<< 8) ||| b1.toUInt16

/-- The number that four bytes stand for. -/
def be32 (b0 b1 b2 b3 : UInt8) : UInt32 :=
  (b0.toUInt32 <<< 24) ||| (b1.toUInt32 <<< 16) ||| (b2.toUInt32 <<< 8) ||| b3.toUInt32

/-- The bytes of a 16-bit number. -/
def put16 (v : UInt16) : List UInt8 := [((v >>> 8) &&& 0xFF).toUInt8, (v &&& 0xFF).toUInt8]

/-- The bytes of a 32-bit number. -/
def put32 (v : UInt32) : List UInt8 :=
  [((v >>> 24) &&& 0xFF).toUInt8, ((v >>> 16) &&& 0xFF).toUInt8, ((v >>> 8) &&& 0xFF).toUInt8,
    (v &&& 0xFF).toUInt8]

/-- A byte below a shifted word occupies free bits. -/
theorem or_eq_add_of_lt {a b : ℕ} (i : ℕ) (hb : b < 2 ^ i) : a * 2 ^ i ||| b = a * 2 ^ i + b := by
  rw [← Nat.shiftLeft_eq, Nat.shiftLeft_add_eq_or_of_lt hb]

theorem and_255 (n : ℕ) : n &&& 255 = n % 256 := Nat.and_two_pow_sub_one_eq_mod n 8

theorem be16_toNat (b0 b1 : UInt8) : (be16 b0 b1).toNat = b0.toNat * 256 + b1.toNat := by
  have h0 := b0.toNat_lt
  have h1 := b1.toNat_lt
  have hor := or_eq_add_of_lt (a := b0.toNat) 8 (show b1.toNat < 2 ^ 8 from h1)
  simp only [be16, UInt16.toNat_or, UInt16.toNat_shiftLeft, UInt8.toNat_toUInt16,
    UInt16.toNat_ofNat, Nat.shiftLeft_eq]
  norm_num at hor ⊢
  rw [Nat.mod_eq_of_lt (by omega), hor]

theorem be32_toNat (b0 b1 b2 b3 : UInt8) :
    (be32 b0 b1 b2 b3).toNat =
      b0.toNat * 16777216 + b1.toNat * 65536 + b2.toNat * 256 + b3.toNat := by
  have h0 := b0.toNat_lt
  have h1 := b1.toNat_lt
  have h2 := b2.toNat_lt
  have h3 := b3.toNat_lt
  -- the shifted bytes do not overlap, so each `|||` is an addition
  have e1 : b0.toNat * 16777216 ||| b1.toNat * 65536 =
      (b0.toNat * 256 + b1.toNat) * 2 ^ 16 := by
    have h := or_eq_add_of_lt (a := b0.toNat) 24 (b := b1.toNat * 65536) (by omega)
    norm_num at h ⊢
    rw [h]
    omega
  have e2 : (b0.toNat * 256 + b1.toNat) * 2 ^ 16 ||| b2.toNat * 256 =
      ((b0.toNat * 256 + b1.toNat) * 256 + b2.toNat) * 2 ^ 8 := by
    rw [or_eq_add_of_lt 16 (by omega)]
    omega
  have e3 : ((b0.toNat * 256 + b1.toNat) * 256 + b2.toNat) * 2 ^ 8 ||| b3.toNat =
      ((b0.toNat * 256 + b1.toNat) * 256 + b2.toNat) * 2 ^ 8 + b3.toNat :=
    or_eq_add_of_lt 8 h3
  simp only [be32, UInt32.toNat_or, UInt32.toNat_shiftLeft, UInt8.toNat_toUInt32,
    UInt32.toNat_ofNat, Nat.shiftLeft_eq]
  norm_num only
  rw [Nat.mod_eq_of_lt (by omega), Nat.mod_eq_of_lt (by omega), Nat.mod_eq_of_lt (by omega),
    e1, e2, e3]
  omega

/-- Reassembling the bytes of a word gives the word. -/
theorem be16_bytes (v : UInt16) :
    be16 ((v >>> 8) &&& 0xFF).toUInt8 (v &&& 0xFF).toUInt8 = v := by
  have hv := v.toNat_lt
  rw [← UInt16.toNat_inj, be16_toNat]
  simp [Nat.shiftRight_eq_div_pow, and_255]
  omega

/-- A number is put together from its bytes. -/
theorem be32_bytes (v : UInt32) :
    be32 ((v >>> 24) &&& 0xFF).toUInt8 ((v >>> 16) &&& 0xFF).toUInt8
      ((v >>> 8) &&& 0xFF).toUInt8 (v &&& 0xFF).toUInt8 = v := by
  have hv := v.toNat_lt
  rw [← UInt32.toNat_inj, be32_toNat]
  simp [Nat.shiftRight_eq_div_pow, and_255]
  omega

theorem be32_toUInt8 (v : UInt32) :
    be32 (v >>> 24).toUInt8 (v >>> 16).toUInt8 (v >>> 8).toUInt8 v.toUInt8 = v := by
  have hv := v.toNat_lt
  rw [← UInt32.toNat_inj, be32_toNat]
  simp [Nat.shiftRight_eq_div_pow]
  omega

/-- The bytes of an assembled word, the least significant one first. -/
theorem bytes_be32 (b0 b1 b2 b3 : UInt8) :
    (be32 b0 b1 b2 b3).toUInt8 = b3 ∧ (be32 b0 b1 b2 b3 >>> 8).toUInt8 = b2 ∧
      (be32 b0 b1 b2 b3 >>> 16).toUInt8 = b1 ∧ (be32 b0 b1 b2 b3 >>> 24).toUInt8 = b0 := by
  have h0 := b0.toNat_lt
  have h1 := b1.toNat_lt
  have h2 := b2.toNat_lt
  have h3 := b3.toNat_lt
  simp only [← UInt8.toNat_inj, UInt32.toNat_toUInt8, UInt32.toNat_shiftRight, be32_toNat,
    UInt32.toNat_ofNat, Nat.shiftRight_eq_div_pow, Nat.reduceMod, Nat.reducePow]
  omega

/-- Four bytes are the bytes of their number. -/
theorem put32_be32 (b0 b1 b2 b3 : UInt8) : put32 (be32 b0 b1 b2 b3) = [b0, b1, b2, b3] := by
  have h0 := b0.toNat_lt
  have h1 := b1.toNat_lt
  have h2 := b2.toNat_lt
  have h3 := b3.toNat_lt
  simp only [put32, List.cons.injEq, ← UInt8.toNat_inj, UInt32.toNat_toUInt8, UInt32.toNat_and,
    UInt32.toNat_shiftRight, be32_toNat, UInt32.toNat_ofNat, Nat.shiftRight_eq_div_pow,
    Nat.reduceMod, Nat.reducePow, and_255, and_true]
  omega

theorem put16_be16 (b0 b1 : UInt8) : put16 (be16 b0 b1) = [b0, b1] := by
  have h0 := b0.toNat_lt
  have h1 := b1.toNat_lt
  simp only [put16, List.cons.injEq, ← UInt8.toNat_inj, UInt16.toNat_toUInt8, UInt16.toNat_and,
    UInt16.toNat_shiftRight, be16_toNat, UInt16.toNat_ofNat, Nat.shiftRight_eq_div_pow,
    Nat.reduceMod, Nat.reducePow, and_255, and_true]
  omega

/-- Enough bytes begin with the bytes of a word. -/
theorem exists_put16 (bytes : List UInt8) (hlen : 2 ≤ bytes.length) :
    ∃ v rest, bytes = put16 v ++ rest := by
  rcases bytes with _ | ⟨b0, _ | ⟨b1, rest⟩⟩
  · simp at hlen
  · simp at hlen
  · exact ⟨be16 b0 b1, rest, by rw [put16_be16]; rfl⟩

/-- Four bytes at the front are some number. -/
theorem exists_put32 (bytes : List UInt8) (hlen : 4 ≤ bytes.length) :
    ∃ v rest, bytes = put32 v ++ rest := by
  rcases bytes with _ | ⟨b0, _ | ⟨b1, _ | ⟨b2, _ | ⟨b3, rest⟩⟩⟩⟩
  · simp at hlen
  · simp at hlen
  · simp at hlen
  · simp at hlen
  · exact ⟨be32 b0 b1 b2 b3, rest, by rw [put32_be32]; rfl⟩

/-! ## Lists of words -/

/-- The bytes of a list of words. -/
def putWords (words : List UInt32) : List UInt8 := words.flatMap put32

theorem putWords_cons (w : UInt32) (words : List UInt32) :
    putWords (w :: words) = put32 w ++ putWords words := List.flatMap_cons

theorem putWords_length (words : List UInt32) : (putWords words).length = words.length * 4 := by
  induction words with
  | nil => rfl
  | cons w words ih =>
      rw [putWords_cons, List.length_append, ih, List.length_cons]
      change 4 + words.length * 4 = _
      omega

/-- Enough bytes begin with the bytes of `n` words. -/
theorem exists_putWords (n : ℕ) (bytes : List UInt8) (hlen : n * 4 ≤ bytes.length) :
    ∃ words rest, words.length = n ∧ bytes = putWords words ++ rest := by
  induction n generalizing bytes with
  | zero => exact ⟨[], bytes, rfl, rfl⟩
  | succ n ih =>
      obtain ⟨w, tail, rfl⟩ := exists_put32 bytes (by omega)
      have htail : n * 4 ≤ tail.length := by
        rw [List.length_append] at hlen
        change (n + 1) * 4 ≤ 4 + tail.length at hlen
        omega
      obtain ⟨words, rest, hwords, rfl⟩ := ih tail htail
      refine ⟨w :: words, rest, by rw [List.length_cons, hwords], ?_⟩
      rw [putWords_cons, List.append_assoc]

end CppMeet.Lib.BigEndian
