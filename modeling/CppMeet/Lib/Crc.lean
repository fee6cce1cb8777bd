import Mathlib.Logic.Function.Iterate
import Mathlib.Algebra.Order.Ring.Nat

/-!
# Reflected cyclic redundancy checks

A register of 32 bits takes a byte by eight conditional shifts (`feed`); `run` takes a string. One
shift is linear in exclusive or (`shift_xor`) and a register whose low bits are clear only moves
down (`toNat_shifts`), so the eight shifts of a byte are those of one octet, which a table can hold,
and the rest of the register moved down eight places (`feed_eq`).
-/

set_option autoImplicit false

namespace CppMeet.Lib.Crc

variable (poly : UInt32)

/-- One bit of the division by a reflected polynomial. -/
def shift (c : UInt32) : UInt32 := if c &&& 1 = 0 then c >>> 1 else poly ^^^ (c >>> 1)

/-- The register after eight bits. -/
def octet (c : UInt32) : UInt32 := (shift poly)^[8] c

/-- The register after one byte. -/
def feed (c : UInt32) (b : UInt8) : UInt32 := octet poly (c ^^^ b.toUInt32)

/-- The register after a string. -/
def run (c : UInt32) (data : List UInt8) : UInt32 := data.foldl (feed poly) c

/-- The CRC-32 of a string: the register starts with all bits set and is complemented at the end. -/
def crc32 (data : List UInt8) : UInt32 := run 0xEDB88320 0xFFFFFFFF data ^^^ 0xFFFFFFFF

/-- The register goes on with the second part where the first part left it. -/
theorem run_append (c : UInt32) (data more : List UInt8) :
    run poly c (data ++ more) = run poly (run poly c data) more :=
  List.foldl_append

/-! ## Shifts are linear -/

theorem and_one_cases (c : UInt32) : c &&& 1 = 0 ∨ c &&& 1 = 1 := by
  have hbit : (c &&& 1).toNat = c.toNat % 2 := by
    rw [UInt32.toNat_and]
    exact Nat.and_one_is_mod c.toNat
  rcases Nat.mod_two_eq_zero_or_one c.toNat with h | h
  · exact Or.inl (UInt32.toNat_inj.1 (hbit.trans h))
  · exact Or.inr (UInt32.toNat_inj.1 (hbit.trans h))

theorem xor_and (a b c : UInt32) : (a ^^^ b) &&& c = (a &&& c) ^^^ (b &&& c) := by
  apply UInt32.toNat_inj.1
  simp only [UInt32.toNat_and, UInt32.toNat_xor]
  exact Nat.and_xor_distrib_right

theorem shift_xor (a b : UInt32) : shift poly (a ^^^ b) = shift poly a ^^^ shift poly b := by
  rw [shift, shift, shift, xor_and, UInt32.shiftRight_xor]
  rcases and_one_cases a with ha | ha <;> rcases and_one_cases b with hb | hb
  · rw [ha, hb, if_pos (by decide), if_pos rfl, if_pos rfl]
  · rw [ha, hb, if_neg (by decide), if_pos rfl, if_neg (by decide)]
    ac_rfl
  · rw [ha, hb, if_neg (by decide), if_neg (by decide), if_pos rfl, UInt32.xor_assoc]
  · -- the polynomial is added twice
    rw [ha, hb, if_pos (by decide), if_neg (by decide)]
    calc a >>> 1 ^^^ b >>> 1 = (poly ^^^ poly) ^^^ (a >>> 1 ^^^ b >>> 1) := by
          rw [UInt32.xor_self, UInt32.zero_xor]
      _ = poly ^^^ a >>> 1 ^^^ (poly ^^^ b >>> 1) := by ac_rfl

theorem shifts_xor (n : ℕ) (a b : UInt32) :
    (shift poly)^[n] (a ^^^ b) = (shift poly)^[n] a ^^^ (shift poly)^[n] b := by
  induction n generalizing a b with
  | zero => rfl
  | succ n ih => rw [Function.iterate_succ_apply, shift_xor, ih, ← Function.iterate_succ_apply,
      ← Function.iterate_succ_apply]

/-! ## A byte at a time -/

theorem toNat_shift_of_even {c : UInt32} (h : 2 ∣ c.toNat) :
    (shift poly c).toNat = c.toNat / 2 := by
  have hlow : c &&& 1 = 0 := by
    apply UInt32.toNat_inj.1
    rw [UInt32.toNat_and]
    exact (Nat.and_one_is_mod c.toNat).trans (Nat.mod_eq_zero_of_dvd h)
  rw [shift, if_pos hlow, UInt32.toNat_shiftRight, Nat.shiftRight_eq_div_pow]
  rfl

/-- Shifts only move down a register whose low bits are clear. -/
theorem toNat_shifts (n : ℕ) {c : UInt32} (h : 2 ^ n ∣ c.toNat) :
    ((shift poly)^[n] c).toNat = c.toNat / 2 ^ n := by
  induction n generalizing c with
  | zero => rw [Nat.pow_zero, Nat.div_one, Function.iterate_zero_apply]
  | succ n ih =>
      have hfirst := toNat_shift_of_even poly (Nat.dvd_trans (Dvd.intro_left (2 ^ n) rfl) h)
      have hrest : 2 ^ n ∣ (shift poly c).toNat := by
        rw [hfirst]
        exact Nat.dvd_div_of_mul_dvd (by rwa [Nat.mul_comm, ← Nat.pow_succ])
      rw [Function.iterate_succ_apply, ih hrest, hfirst, Nat.div_div_eq_div_mul, Nat.pow_succ,
        Nat.mul_comm]

theorem toNat_and_255 (c : UInt32) : (c &&& 0xFF).toNat = c.toNat % 256 := by
  rw [UInt32.toNat_and]
  exact Nat.and_two_pow_sub_one_eq_mod c.toNat 8

theorem shiftRight_eq_zero {c : UInt32} (h : c.toNat < 256) : c >>> 8 = 0 := by
  apply UInt32.toNat_inj.1
  rw [UInt32.toNat_shiftRight, Nat.shiftRight_eq_div_pow]
  exact Nat.div_eq_of_lt h

/-- The low octet of a register and the rest of it. -/
theorem octet_xor_rest (c : UInt32) : (c &&& 0xFF) ^^^ (c &&& 0xFFFFFF00) = c := by
  rw [UInt32.and_comm c, UInt32.and_comm c, ← xor_and]
  exact UInt32.neg_one_and

/-- The upper three bytes leave the low eight bits clear. -/
theorem dvd_rest (c : UInt32) : 2 ^ 8 ∣ (c &&& 0xFFFFFF00).toNat := by
  have hlow : (c &&& 0xFFFFFF00) &&& 0xFF = 0 := by
    rw [UInt32.and_assoc]
    exact UInt32.and_zero
  apply Nat.dvd_of_mod_eq_zero
  exact (toNat_and_255 _).symm.trans (congrArg UInt32.toNat hlow)

theorem rest_shiftRight (c : UInt32) : (c &&& 0xFFFFFF00) >>> 8 = c >>> 8 := by
  have hoctet : (c &&& 0xFF) >>> 8 = 0 := by
    apply shiftRight_eq_zero
    rw [toNat_and_255]
    exact Nat.mod_lt _ (by decide)
  calc (c &&& 0xFFFFFF00) >>> 8 = (c &&& 0xFF) >>> 8 ^^^ (c &&& 0xFFFFFF00) >>> 8 := by
        rw [hoctet, UInt32.zero_xor]
    _ = c >>> 8 := by rw [← UInt32.shiftRight_xor, octet_xor_rest]

/-- Eight shifts move the upper three bytes down. -/
theorem octet_rest (c : UInt32) : octet poly (c &&& 0xFFFFFF00) = c >>> 8 := by
  apply UInt32.toNat_inj.1
  rw [octet, toNat_shifts poly 8 (dvd_rest c), ← rest_shiftRight, UInt32.toNat_shiftRight,
    Nat.shiftRight_eq_div_pow]
  rfl

/-- A byte by its octet of the register and the rest of the register moved down. -/
theorem feed_eq (c : UInt32) (b : UInt8) :
    feed poly c b = (c >>> 8) ^^^ octet poly ((c ^^^ b.toUInt32) &&& 0xFF) := by
  have hbyte : b.toUInt32 >>> 8 = 0 := shiftRight_eq_zero b.toNat_lt
  have hrest := octet_rest poly (c ^^^ b.toUInt32)
  rw [UInt32.shiftRight_xor, hbyte, UInt32.xor_zero] at hrest
  calc feed poly c b
      = octet poly (((c ^^^ b.toUInt32) &&& 0xFF) ^^^ ((c ^^^ b.toUInt32) &&& 0xFFFFFF00)) := by
        rw [octet_xor_rest, feed]
    _ = octet poly ((c ^^^ b.toUInt32) &&& 0xFF) ^^^
          octet poly ((c ^^^ b.toUInt32) &&& 0xFFFFFF00) := shifts_xor poly 8 _ _
    _ = (c >>> 8) ^^^ octet poly ((c ^^^ b.toUInt32) &&& 0xFF) := by
        rw [hrest, UInt32.xor_comm]

end CppMeet.Lib.Crc
