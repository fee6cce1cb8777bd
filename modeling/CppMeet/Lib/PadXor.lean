import Mathlib.Data.List.Basic

/-!
# XOR of byte strings of different lengths

`padXor` is the byte-wise XOR of two strings, the shorter one padded with zero bytes. It is
commutative and associative with the empty string as its unit, so the XOR `xorAll` of a list of
strings does not depend on their order (`xorAll_perm`). A string cancels against itself up to its
padding: from the XOR of a list and the XOR of all but one of its strings the missing one comes
back, followed by zero bytes up to the longest length (`padXor_xorAll_cons`).
-/

set_option autoImplicit false

namespace CppMeet.Lib.PadXor

/-- Byte-wise XOR with zero padding. -/
def padXor : List UInt8 → List UInt8 → List UInt8
  | [], bs => bs
  | a :: as, [] => a :: as
  | a :: as, b :: bs => (a ^^^ b) :: padXor as bs

/-- The XOR of all strings of a list. -/
def xorAll (l : List (List UInt8)) : List UInt8 := l.foldl padXor []

/-- The length of the longest string of a list. -/
def maxLen : List (List UInt8) → ℕ
  | [] => 0
  | bs :: l => max bs.length (maxLen l)

@[simp] theorem padXor_nil_left (bs : List UInt8) : padXor [] bs = bs := rfl

@[simp] theorem padXor_nil_right (as : List UInt8) : padXor as [] = as := by
  cases as with
  | nil => rfl
  | cons a as => rfl

@[simp] theorem padXor_cons_cons (a b : UInt8) (as bs : List UInt8) :
    padXor (a :: as) (b :: bs) = (a ^^^ b) :: padXor as bs := rfl

theorem length_padXor (as bs : List UInt8) :
    (padXor as bs).length = max as.length bs.length := by
  induction as generalizing bs with
  | nil => simp
  | cons a as ih =>
      cases bs with
      | nil => simp
      | cons b bs =>
          simp only [padXor_cons_cons, List.length_cons, ih]
          omega

theorem padXor_comm (as bs : List UInt8) : padXor as bs = padXor bs as := by
  induction as generalizing bs with
  | nil => simp
  | cons a as ih =>
      cases bs with
      | nil => simp
      | cons b bs => rw [padXor_cons_cons, padXor_cons_cons, UInt8.xor_comm, ih]

theorem padXor_assoc (as bs cs : List UInt8) :
    padXor (padXor as bs) cs = padXor as (padXor bs cs) := by
  induction as generalizing bs cs with
  | nil => simp
  | cons a as ih =>
      cases bs with
      | nil => simp
      | cons b bs =>
          cases cs with
          | nil => simp
          | cons c cs => simp only [padXor_cons_cons, UInt8.xor_assoc, ih]

theorem padXor_self (as : List UInt8) : padXor as as = List.replicate as.length 0 := by
  induction as with
  | nil => rfl
  | cons a as ih =>
      rw [padXor_cons_cons, UInt8.xor_self, ih, List.length_cons, List.replicate_succ]

/-- Zero bytes only pad. -/
theorem padXor_replicate (as : List UInt8) (n : ℕ) :
    padXor as (List.replicate n 0) = as ++ List.replicate (n - as.length) 0 := by
  induction as generalizing n with
  | nil => simp
  | cons a as ih =>
      cases n with
      | zero => simp
      | succ n =>
          rw [List.replicate_succ, padXor_cons_cons, UInt8.xor_zero, ih, List.length_cons,
            Nat.add_sub_add_right, List.cons_append]

/-! ## Lists of strings -/

theorem foldl_padXor (as : List UInt8) (l : List (List UInt8)) :
    l.foldl padXor as = padXor as (xorAll l) := by
  induction l generalizing as with
  | nil => simp [xorAll]
  | cons bs l ih =>
      have hrest : xorAll (bs :: l) = padXor bs (xorAll l) := ih bs
      rw [List.foldl_cons, ih, padXor_assoc, hrest]

theorem xorAll_cons (bs : List UInt8) (l : List (List UInt8)) :
    xorAll (bs :: l) = padXor bs (xorAll l) := by
  rw [xorAll, List.foldl_cons, padXor_nil_left, foldl_padXor]

theorem xorAll_perm {l l' : List (List UInt8)} (h : l.Perm l') : xorAll l = xorAll l' := by
  induction h with
  | nil => rfl
  | cons bs _ ih => rw [xorAll_cons, xorAll_cons, ih]
  | swap as bs l =>
      rw [xorAll_cons, xorAll_cons, xorAll_cons, xorAll_cons, ← padXor_assoc, padXor_comm bs as,
        padXor_assoc]
  | trans _ _ ih ih' => exact ih.trans ih'

theorem length_xorAll (l : List (List UInt8)) : (xorAll l).length = maxLen l := by
  induction l with
  | nil => rfl
  | cons bs l ih => rw [xorAll_cons, length_padXor, ih, maxLen]

/-- One missing string comes back from the XOR of all and the XOR of the others. -/
theorem padXor_xorAll_cons (bs : List UInt8) (l : List (List UInt8)) :
    padXor (xorAll (bs :: l)) (xorAll l) =
      bs ++ List.replicate (maxLen (bs :: l) - bs.length) 0 := by
  rw [xorAll_cons, padXor_assoc, padXor_self, padXor_replicate, length_xorAll, maxLen]
  congr 2
  omega

theorem maxLen_perm {l l' : List (List UInt8)} (h : l.Perm l') : maxLen l = maxLen l' := by
  rw [← length_xorAll, ← length_xorAll, xorAll_perm h]

end CppMeet.Lib.PadXor
