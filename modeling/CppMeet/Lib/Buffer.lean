import CppMeet.Lib.BigEndian

/-!
# Reads from a buffer

The reads of a decoder that holds a pointer and a length. A read that leaves the buffer has no
value, so a decoder that returns a value on a buffer has read inside of it only.
-/

set_option autoImplicit false

namespace CppMeet.Lib.Buffer

open CppMeet.Lib.BigEndian

variable (data : List UInt8) (p n : ℕ)

/-- The two bytes at offset `p`, in network byte order. -/
def readU16 : Option UInt16 := do
  let b0 ← data[p]?
  let b1 ← data[p + 1]?
  return be16 b0 b1

/-- The four bytes at offset `p`, in network byte order. -/
def readU32 : Option UInt32 := do
  let b0 ← data[p]?
  let b1 ← data[p + 1]?
  let b2 ← data[p + 2]?
  let b3 ← data[p + 3]?
  return be32 b0 b1 b2 b3

/-- The `n` bytes from offset `p` on. -/
def readBytes : Option (List UInt8) :=
  if p + n ≤ data.length then some ((data.drop p).take n) else none

/-- The `n` bytes from offset `p` on, for a field of fixed size. -/
def readVector : Option (Vector UInt8 n) :=
  if h : p + n ≤ data.length then
    some ⟨((data.drop p).take n).toArray, by
      rw [List.size_toArray, List.length_take, List.length_drop]
      omega⟩
  else none

variable {data p n}

theorem exists_getElem? (h : p < data.length) : ∃ b, data[p]? = some b :=
  ⟨data[p], List.getElem?_eq_getElem h⟩

theorem exists_readU16 (h : p + 2 ≤ data.length) : ∃ v, readU16 data p = some v := by
  obtain ⟨b0, h0⟩ := exists_getElem? (show p < data.length by omega)
  obtain ⟨b1, h1⟩ := exists_getElem? (show p + 1 < data.length by omega)
  exact ⟨be16 b0 b1, by rw [readU16, h0, h1]; rfl⟩

theorem exists_readU32 (h : p + 4 ≤ data.length) : ∃ v, readU32 data p = some v := by
  obtain ⟨b0, h0⟩ := exists_getElem? (show p < data.length by omega)
  obtain ⟨b1, h1⟩ := exists_getElem? (show p + 1 < data.length by omega)
  obtain ⟨b2, h2⟩ := exists_getElem? (show p + 2 < data.length by omega)
  obtain ⟨b3, h3⟩ := exists_getElem? (show p + 3 < data.length by omega)
  exact ⟨be32 b0 b1 b2 b3, by rw [readU32, h0, h1, h2, h3]; rfl⟩

theorem exists_readBytes (h : p + n ≤ data.length) : ∃ v, readBytes data p n = some v :=
  ⟨_, if_pos h⟩

theorem exists_readVector (h : p + n ≤ data.length) : ∃ v, readVector data p n = some v :=
  ⟨_, dif_pos h⟩

/-- As many bytes are read as were asked for. -/
theorem length_of_readBytes {bytes : List UInt8} (h : readBytes data p n = some bytes) :
    bytes.length = n := by
  rw [readBytes, Option.ite_none_right_eq_some] at h
  obtain ⟨hle, hread⟩ := h
  rw [← Option.some.inj hread, List.length_take, List.length_drop]
  omega

/-- Bytes that are read lie inside the buffer. -/
theorem le_of_readBytes {bytes : List UInt8} (h : readBytes data p n = some bytes) :
    p + n ≤ data.length := (Option.ite_none_right_eq_some.1 h).1

/-- A word that is read lies inside the buffer. -/
theorem le_of_readU32 {v : UInt32} (h : readU32 data p = some v) : p + 4 ≤ data.length := by
  simp only [readU32, Option.bind_eq_bind, Option.bind_eq_some_iff] at h
  obtain ⟨b0, -, b1, -, b2, -, b3, h3, -⟩ := h
  exact (List.getElem?_eq_some_iff.1 h3).1

/-! ## Reads of a prefix -/

theorem readU16_append_left (post : List UInt8) (h : p + 2 ≤ data.length) :
    readU16 (data ++ post) p = readU16 data p := by
  rw [readU16, readU16, List.getElem?_append_left (by omega), List.getElem?_append_left (by omega)]

theorem readU32_append_left (post : List UInt8) (h : p + 4 ≤ data.length) :
    readU32 (data ++ post) p = readU32 data p := by
  rw [readU32, readU32, List.getElem?_append_left (by omega), List.getElem?_append_left (by omega),
    List.getElem?_append_left (by omega), List.getElem?_append_left (by omega)]

theorem take_drop_append_left (post : List UInt8) (h : p + n ≤ data.length) :
    ((data ++ post).drop p).take n = (data.drop p).take n := by
  rw [List.drop_append_of_le_length (by omega),
    List.take_append_of_le_length (by rw [List.length_drop]; omega)]

theorem readBytes_append_left (post : List UInt8) (h : p + n ≤ data.length) :
    readBytes (data ++ post) p n = readBytes data p n := by
  rw [readBytes, readBytes, if_pos (by rw [List.length_append]; omega), if_pos h,
    take_drop_append_left post h]

theorem readVector_append_left (post : List UInt8) (h : p + n ≤ data.length) :
    readVector (data ++ post) p n = readVector data p n := by
  rw [readVector, readVector, dif_pos (by rw [List.length_append]; omega), dif_pos h]
  simp only [take_drop_append_left post h]

/-! ## Reading what was written -/

theorem readU16_put16 (pre post : List UInt8) (v : UInt16) :
    readU16 (pre ++ (put16 v ++ post)) pre.length = some v := by
  have h : readU16 (pre ++ (put16 v ++ post)) pre.length =
      some (be16 ((v >>> 8) &&& 0xFF).toUInt8 (v &&& 0xFF).toUInt8) := by
    simp [readU16, put16]
  rw [h, be16_bytes]

theorem readU32_put32 (pre post : List UInt8) (v : UInt32) :
    readU32 (pre ++ (put32 v ++ post)) pre.length = some v := by
  have h : readU32 (pre ++ (put32 v ++ post)) pre.length =
      some (be32 ((v >>> 24) &&& 0xFF).toUInt8 ((v >>> 16) &&& 0xFF).toUInt8
        ((v >>> 8) &&& 0xFF).toUInt8 (v &&& 0xFF).toUInt8) := by
    simp [readU32, put32]
  rw [h, be32_bytes]

/-- Bytes are read from where they were put. -/
theorem readBytes_append (pre val post : List UInt8) :
    readBytes (pre ++ (val ++ post)) pre.length val.length = some val := by
  rw [readBytes, if_pos (by simp only [List.length_append]; omega), List.drop_left, List.take_left]

theorem readVector_append (pre post : List UInt8) {n : ℕ} (val : Vector UInt8 n) :
    readVector (pre ++ (val.toList ++ post)) pre.length n = some val := by
  have hlen : val.toList.length = n := val.length_toList
  have hread : ((pre ++ (val.toList ++ post)).drop pre.length).take n = val.toList := by
    rw [List.drop_left]
    exact List.take_left' hlen
  rw [readVector, dif_pos (by simp only [List.length_append]; omega)]
  congr 1
  apply Vector.toList_inj.1
  change ((pre ++ (val.toList ++ post)).drop pre.length).take n = val.toList
  exact hread

end CppMeet.Lib.Buffer
