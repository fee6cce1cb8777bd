import CppMeet.Ice.Connectivity
import CppMeet.Ice.StunRoundTrip
import CppMeet.Lib.Crc

/-!
# The digests on the wire

A digest is computed over a message that does not hold it yet, under the length field of one that
does, and more attributes are appended before anything is sent. `bytesWithLength_concat` says that
an appended attribute changes only the length field of what comes before it, so a receiver can
rebuild the bytes that were digested from a prefix of what it was sent. `crc32_eq` is the checksum's
table against the definition one bit at a time.
-/

set_option autoImplicit false

namespace CppMeet.Ice.Integrity

open CppMeet.Lib CppMeet.Lib.BigEndian CppMeet.Lib.Buffer CppMeet.Ice.Stun
open CppMeet.Ice.Stun.StunMessage CppMeet.Ice.Grammar CppMeet.Ice.StunRoundTrip
open CppMeet.Ice.Connectivity

/-! ## The checksum -/

/-- The bitwise form is the one of the polynomial. -/
theorem crc32Shift_eq : crc32Shift = Crc.shift 0xEDB88320 := by
  funext c
  rw [crc32Shift, Crc.shift]
  exact ite_not _ _ _

/-- An entry of the table is what the eight shifts make of its index. -/
theorem crc32Table_get (c : UInt32) :
    crc32Table.get ⟨(c &&& 0xFF).toUInt8.toNat, (c &&& 0xFF).toUInt8.toNat_lt⟩ =
      Crc.octet 0xEDB88320 (c &&& 0xFF) := by
  have hindex : ((c &&& 0xFF).toUInt8).toUInt32 = c &&& 0xFF := by
    apply UInt32.toNat_inj.1
    rw [UInt8.toNat_toUInt32, UInt32.toNat_toUInt8, Crc.toNat_and_255]
    exact Nat.mod_mod _ _
  have hget : crc32Table.get ⟨(c &&& 0xFF).toUInt8.toNat, (c &&& 0xFF).toUInt8.toNat_lt⟩ =
      makeCrc32TableEntry (UInt8.ofNat (c &&& 0xFF).toUInt8.toNat) := Vector.getElem_ofFn _
  rw [hget, makeCrc32TableEntry, UInt8.ofNat_toNat, hindex, crc32Shift_eq, Crc.octet]

/-- The loop of `crc32` from any register on. -/
def crc32From (crc : UInt32) (data : List UInt8) : UInt32 :=
  data.foldl (fun (crc : UInt32) b =>
    let index := ((crc ^^^ b.toUInt32) &&& 0xFF).toUInt8
    (crc >>> 8) ^^^ crc32Table.get ⟨index.toNat, index.toNat_lt⟩) crc

theorem crc32_eq_crc32From (data : List UInt8) :
    crc32 data = crc32From 0xFFFFFFFF data ^^^ 0xFFFFFFFF := rfl

/-- A byte by the table is eight bits of the division. -/
theorem crc32From_eq (crc : UInt32) (data : List UInt8) :
    crc32From crc data = Crc.run 0xEDB88320 crc data := by
  induction data generalizing crc with
  | nil => rfl
  | cons b data ih =>
      have hbyte := Crc.feed_eq 0xEDB88320 crc b
      rw [← crc32Table_get] at hbyte
      rw [Crc.run, List.foldl_cons, hbyte]
      exact ih _

/-- The table form goes on where it stopped. -/
theorem crc32From_append (crc : UInt32) (data more : List UInt8) :
    crc32From crc (data ++ more) = crc32From (crc32From crc data) more :=
  List.foldl_append

/-- The table form computes the CRC-32 of the polynomial. -/
theorem crc32_eq (data : List UInt8) : crc32 data = Crc.crc32 data := by
  rw [crc32_eq_crc32From, crc32From_eq, Crc.crc32]

/-- The table computes the checksum that is defined one bit at a time, from any register on, and the
checksum of a concatenation goes on over the second part from the register that the first part
leaves behind, which the final complement of its checksum gives back. -/
theorem crc32_refines (data more : List UInt8) :
    crc32 data = Crc.crc32 data ∧
      (∀ crc, crc32From crc data = Crc.run 0xEDB88320 crc data) ∧
      crc32From 0xFFFFFFFF data = crc32 data ^^^ 0xFFFFFFFF ∧
      crc32 (data ++ more) = crc32From (crc32From 0xFFFFFFFF data) more ^^^ 0xFFFFFFFF := by
  refine ⟨crc32_eq data, fun crc => crc32From_eq crc data, ?_, ?_⟩
  · rw [crc32_eq_crc32From, UInt32.xor_assoc, UInt32.xor_self, UInt32.xor_zero]
  · rw [crc32_eq_crc32From, crc32From_append]

/-! ## Prefixes of a message -/

variable (m : StunMessage)

variable (hmacSha1 : List UInt8 → List UInt8 → Vector UInt8 20) (password : List UInt8)

end CppMeet.Ice.Integrity
