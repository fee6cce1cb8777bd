import Mathlib.Data.List.Basic
import Mathlib.Data.Int.Notation

/-!
# Serial numbers

A 16-bit sequence number is an unbounded number modulo 2^16, `UInt16.ofInt`. Within half of the
number space the sign of the 16-bit difference gives the order of the unbounded numbers
(`newer_ofInt`), and the numbers that a counter runs through from one sequence number to another are
those of the unbounded numbers in between (`mem_between`).
-/

set_option autoImplicit false

namespace CppMeet.Lib.Serial

/-- The wrap-around comparison: the difference is positive as a signed number. -/
def newer (a b : UInt16) : Bool := decide (0 < (a - b).toInt16)

/-- The numbers a counter runs through after `a` and before it reaches `b`. -/
def between (a b : UInt16) : List UInt16 :=
  (List.range (b - a - 1).toNat).map fun i => a + 1 + UInt16.ofNat i

theorem toNat_ofInt (x : ℤ) : ((UInt16.ofInt x).toNat : ℤ) = x % 65536 := by
  rw [UInt16.ofInt, UInt16.toNat_ofNat']
  omega

/-- Numbers that are 2^16 apart have one residue. -/
theorem ofInt_eq_iff {x y : ℤ} : UInt16.ofInt x = UInt16.ofInt y ↔ x % 65536 = y % 65536 := by
  rw [← UInt16.toNat_inj, ← toNat_ofInt, ← toNat_ofInt, Int.natCast_inj]

theorem ofInt_natCast (n : ℕ) : UInt16.ofInt n = UInt16.ofNat n := by
  have h := toNat_ofInt n
  rw [← UInt16.toNat_inj, UInt16.toNat_ofNat']
  omega

theorem ofInt_sub (x y : ℤ) : UInt16.ofInt (x - y) = UInt16.ofInt x - UInt16.ofInt y := by
  have hx := toNat_ofInt x
  have hy := toNat_ofInt y
  have hxy := toNat_ofInt (x - y)
  have hlt := (UInt16.ofInt y).toNat_lt
  rw [← UInt16.toNat_inj, UInt16.toNat_sub]
  omega

/-- A word is positive as a signed number when it is in the lower half and not 0. -/
theorem zero_lt_toInt16 (u : UInt16) : 0 < u.toInt16 ↔ 0 < u.toNat ∧ u.toNat < 32768 := by
  have hlt := u.toNat_lt
  have htoInt : u.toInt16.toInt = u.toBitVec.toInt := rfl
  rw [Int16.lt_iff_toInt_lt, htoInt, BitVec.toInt_eq_toNat_cond]
  change (0 : ℤ) <
    (if 2 * u.toNat < 2 ^ 16 then (u.toNat : ℤ) else (u.toNat : ℤ) - (2 ^ 16 : ℕ)) ↔ _
  split_ifs with h
  · omega
  · omega

/-- Numbers less than 2^15 apart are compared as they are. -/
theorem newer_ofInt {m e : ℤ} (hlow : m - 32768 < e) (hhigh : e < m + 32768) :
    newer (UInt16.ofInt e) (UInt16.ofInt m) = true ↔ m < e := by
  have h := toNat_ofInt (e - m)
  rw [newer, decide_eq_true_eq, zero_lt_toInt16, ← ofInt_sub]
  omega

/-- Between two unbounded numbers less than one cycle apart. -/
theorem mem_between {m e : ℤ} (hlt : m < e) (hcycle : e ≤ m + 65536) (k : UInt16) :
    k ∈ between (UInt16.ofInt m) (UInt16.ofInt e) ↔ ∃ x, m < x ∧ x < e ∧ UInt16.ofInt x = k := by
  have hsteps : UInt16.ofInt e - UInt16.ofInt m - 1 = UInt16.ofInt (e - m - 1) := by
    rw [ofInt_sub, ofInt_sub, UInt16.ofInt_one]
  have hlen := toNat_ofInt (e - m - 1)
  rw [between, hsteps, List.mem_map]
  constructor
  · rintro ⟨i, hi, rfl⟩
    rw [List.mem_range] at hi
    refine ⟨m + 1 + i, by omega, by omega, ?_⟩
    rw [UInt16.ofInt_add, UInt16.ofInt_add, UInt16.ofInt_one, ofInt_natCast]
  · rintro ⟨x, hm, he, rfl⟩
    refine ⟨(x - m - 1).toNat, by rw [List.mem_range]; omega, ?_⟩
    rw [← ofInt_natCast, ← UInt16.ofInt_one, ← UInt16.ofInt_add, ← UInt16.ofInt_add]
    congr 1
    omega

/-- The numbers strictly between `a` and `b`, counted upwards from `a`. -/
theorem mem_between_iff {a b : UInt16} (hne : a ≠ b) (k : UInt16) :
    k ∈ between a b ↔ 0 < (k - a).toNat ∧ (k - a).toNat < (b - a).toNat := by
  -- the loop makes one step less than the distance
  have hsteps : (b - a - 1).toNat = (b - a).toNat - 1 := by
    have hdist := UInt16.toNat_sub b a
    have hnat : a.toNat ≠ b.toNat := mt UInt16.toNat_inj.1 hne
    have ha := a.toNat_lt
    have hb := b.toNat_lt
    have hlt := (b - a).toNat_lt
    rw [UInt16.toNat_sub, UInt16.toNat_one]
    omega
  have hlt := (b - a).toNat_lt
  rw [between, List.mem_map, hsteps]
  constructor
  · rintro ⟨i, hi, rfl⟩
    rw [List.mem_range] at hi
    -- step `i` is the number `i + 1` behind `a`
    have hdist : (a + 1 + UInt16.ofNat i - a).toNat = i + 1 := by
      rw [UInt16.add_assoc, UInt16.add_comm, UInt16.add_sub_cancel, UInt16.toNat_add,
        UInt16.toNat_one, UInt16.toNat_ofNat']
      omega
    rw [hdist]
    omega
  · rintro ⟨hpos, hk⟩
    refine ⟨(k - a).toNat - 1, by rw [List.mem_range]; omega, ?_⟩
    rw [← UInt16.toNat_inj, UInt16.toNat_add, UInt16.toNat_add, UInt16.toNat_one,
      UInt16.toNat_ofNat', UInt16.toNat_sub]
    have hka := UInt16.toNat_sub k a
    have hka' := k.toNat_lt
    have ha := a.toNat_lt
    omega

end CppMeet.Lib.Serial
