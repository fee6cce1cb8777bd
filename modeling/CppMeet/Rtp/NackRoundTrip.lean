import CppMeet.Rtp.Rtcp

/-!
# NACK packets round trip

On a strictly increasing list the two inner loops of `compress` cover the same numbers, the ones
within 16 of the first number, so a pair followed by the numbers that are skipped to gives the list
back (`expandPair_append_skipCovered`) and expanding undoes compressing (`expand_compress`). A pair
takes up 17 numbers of the 16-bit space, which bounds the number of pairs and keeps the length
field from wrapping.
-/

set_option autoImplicit false

namespace CppMeet.Rtp.NackRoundTrip

open CppMeet.Lib.BigEndian CppMeet.Lib.Buffer CppMeet.Lib.SortUnique CppMeet.Rtp.Rtcp
open CppMeet.Rtp.Rtcp.RtcpNack

/-! ## The bitmask -/

theorem testBit_or_shift (blp : UInt16) {k : ℕ} (hk : k < 16) (i : ℕ) :
    (blp ||| UInt16.ofNat (1 <<< k)).toNat.testBit i = (blp.toNat.testBit i || decide (k = i)) := by
  have hlt : 2 ^ k < 2 ^ 16 := Nat.pow_lt_pow_right (by decide) hk
  rw [UInt16.toNat_or, UInt16.toNat_ofNat', Nat.one_shiftLeft, Nat.mod_eq_of_lt hlt,
    Nat.testBit_or, Nat.testBit_two_pow]

/-- The bits set by the loop are those of the numbers within 16 of `fsn`. -/
theorem testBit_blpLoop (fsn blp : UInt16) {seqs : List UInt16} (hinc : seqs.Pairwise (· < ·))
    (habove : ∀ s ∈ seqs, fsn < s) (i : ℕ) :
    (blpLoop fsn blp seqs).toNat.testBit i = true ↔
      blp.toNat.testBit i = true ∨ i < 16 ∧ ∃ s ∈ seqs, s.toNat = fsn.toNat + i + 1 := by
  induction seqs generalizing blp with
  | nil => simp [blpLoop]
  | cons s seqs ih =>
      obtain ⟨hfirst, hinc⟩ := List.pairwise_cons.1 hinc
      obtain ⟨hs, habove⟩ := List.forall_mem_cons.1 habove
      have hslt : fsn.toNat < s.toNat := UInt16.lt_iff_toNat_lt.1 hs
      rw [blpLoop, diff]
      split
      · rename_i hcov
        -- the bit of this number is set, the other ones come from the rest
        rw [ih _ hinc habove, testBit_or_shift _ (by omega), Bool.or_eq_true, or_assoc]
        apply or_congr_right
        rw [decide_eq_true_eq, List.exists_mem_cons_iff, and_or_left]
        apply or_congr_left
        omega
      · rename_i hncov
        -- the loop stops: this number and all later ones are too far away
        rw [if_pos (by omega)]
        refine ⟨Or.inl, ?_⟩
        rintro (hbit | ⟨hi, s', hs', heq⟩)
        · exact hbit
        · rcases List.mem_cons.1 hs' with rfl | hmem
          · omega
          · have hlt := UInt16.lt_iff_toNat_lt.1 (hfirst s' hmem)
            omega

theorem and_shift_ne_zero (n i : ℕ) : n &&& 1 <<< i ≠ 0 ↔ n.testBit i = true := by
  rw [Nat.one_shiftLeft, Nat.and_two_pow]
  cases n.testBit i with
  | false => simp
  | true => simp

/-! ## One pair -/

section Pair

variable {fsn : UInt16} {seqs : List UInt16}

/-- The bits of the mask are the numbers that follow within sixteen. -/
theorem mem_covered_iff (hinc : seqs.Pairwise (· < ·)) (habove : ∀ s ∈ seqs, fsn < s) (i : ℕ) :
    i ∈ (List.range 16).filter (fun i => (blpLoop fsn 0 seqs).toNat &&& 1 <<< i ≠ 0) ↔
      i < 16 ∧ ∃ s ∈ seqs, s.toNat = fsn.toNat + i + 1 := by
  rw [List.mem_filter, List.mem_range, decide_eq_true_eq, and_shift_ne_zero,
    testBit_blpLoop fsn 0 hinc habove]
  simp

/-- No sum leaves the 16-bit numbers. -/
theorem toNat_covered (hinc : seqs.Pairwise (· < ·)) (habove : ∀ s ∈ seqs, fsn < s) {i : ℕ}
    (hi : i ∈ (List.range 16).filter fun i => (blpLoop fsn 0 seqs).toNat &&& 1 <<< i ≠ 0) :
    (UInt16.ofNat (fsn.toNat + i + 1)).toNat = fsn.toNat + i + 1 := by
  obtain ⟨_, s, _, hs⟩ := (mem_covered_iff hinc habove i).1 hi
  have hlt := s.toNat_lt
  rw [UInt16.toNat_ofNat', Nat.mod_eq_of_lt (by omega)]

/-- A pair stands for its own number and those the mask covers. -/
theorem mem_expandPair (hinc : seqs.Pairwise (· < ·)) (habove : ∀ s ∈ seqs, fsn < s) (s : UInt16) :
    s ∈ expandPair fsn (blpLoop fsn 0 seqs) ↔ s = fsn ∨ s ∈ seqs ∧ diff fsn s ≤ 16 := by
  rw [expandPair, List.mem_cons, List.mem_map]
  apply or_congr_right
  constructor
  · -- a set bit stands for the number that set it
    rintro ⟨i, hi, rfl⟩
    have hnat := toNat_covered hinc habove hi
    obtain ⟨hlt, s, hs, heq⟩ := (mem_covered_iff hinc habove i).1 hi
    have hsame : UInt16.ofNat (fsn.toNat + i + 1) = s := by
      rw [← UInt16.toNat_inj, hnat, heq]
    rw [hsame, diff]
    exact ⟨hs, by omega⟩
  · rintro ⟨hs, hle⟩
    have hslt := UInt16.lt_iff_toNat_lt.1 (habove s hs)
    rw [diff] at hle
    refine ⟨s.toNat - fsn.toNat - 1, ?_, ?_⟩
    · exact (mem_covered_iff hinc habove _).2 ⟨by omega, s, hs, by omega⟩
    · rw [show fsn.toNat + (s.toNat - fsn.toNat - 1) + 1 = s.toNat by omega, UInt16.ofNat_toNat]

theorem pairwise_expandPair (hinc : seqs.Pairwise (· < ·)) (habove : ∀ s ∈ seqs, fsn < s) :
    (expandPair fsn (blpLoop fsn 0 seqs)).Pairwise (· < ·) := by
  rw [expandPair, List.pairwise_cons, List.pairwise_map]
  constructor
  · intro s hs
    obtain ⟨i, hi, rfl⟩ := List.mem_map.1 hs
    rw [UInt16.lt_iff_toNat_lt, toNat_covered hinc habove hi]
    omega
  · refine (List.pairwise_lt_range.filter _).imp_of_mem ?_
    intro i j hi hj hij
    rw [UInt16.lt_iff_toNat_lt, toNat_covered hinc habove hi, toNat_covered hinc habove hj]
    omega

/-- What is not covered is a part of the list. -/
theorem skipCovered_sublist (fsn : UInt16) (seqs : List UInt16) :
    (skipCovered fsn seqs).Sublist seqs := by
  induction seqs with
  | nil => exact List.Sublist.slnil
  | cons s seqs ih =>
      rw [skipCovered]
      split
      · exact ih.cons s
      · exact List.Sublist.refl _

/-- The mask covers the numbers up to sixteen behind. -/
theorem mem_skipCovered (hinc : seqs.Pairwise (· < ·)) (s : UInt16) :
    s ∈ skipCovered fsn seqs ↔ s ∈ seqs ∧ 16 < diff fsn s := by
  induction seqs with
  | nil => simp [skipCovered]
  | cons s' seqs ih =>
      obtain ⟨hfirst, hinc⟩ := List.pairwise_cons.1 hinc
      rw [skipCovered]
      split
      · rename_i hcov
        rw [ih hinc, List.mem_cons, or_and_right, iff_or_self]
        rintro ⟨rfl, hfar⟩
        omega
      · rename_i hfar
        -- the loop stops here, and the later numbers are even farther away
        rw [iff_self_and]
        intro hs
        rcases List.mem_cons.1 hs with rfl | hmem
        · omega
        · have hlt := UInt16.lt_iff_toNat_lt.1 (hfirst s hmem)
          rw [diff] at hfar ⊢
          omega

/-- The two inner loops agree on which numbers the pair covers. -/
theorem expandPair_append_skipCovered (h : (fsn :: seqs).Pairwise (· < ·)) :
    expandPair fsn (blpLoop fsn 0 seqs) ++ skipCovered fsn seqs = fsn :: seqs := by
  obtain ⟨habove, hinc⟩ := List.pairwise_cons.1 h
  -- both sides are strictly increasing and have the same elements
  apply eq_of_pairwise_lt _ h
  · intro s
    rw [List.mem_append, mem_expandPair hinc habove, mem_skipCovered hinc, List.mem_cons,
      or_assoc, ← and_or_left]
    have htotal : diff fsn s ≤ 16 ∨ 16 < diff fsn s := le_or_gt _ _
    simp only [htotal, and_true]
  · rw [List.pairwise_append]
    refine ⟨pairwise_expandPair hinc habove, hinc.sublist (skipCovered_sublist fsn seqs), ?_⟩
    intro s hs s' hs'
    obtain ⟨_, hfar⟩ := (mem_skipCovered hinc s').1 hs'
    rw [diff] at hfar
    rw [UInt16.lt_iff_toNat_lt]
    rcases (mem_expandPair hinc habove s).1 hs with rfl | ⟨_, hnear⟩
    · omega
    · rw [diff] at hnear
      omega

end Pair

/-! ## All pairs -/

/-- The numbers that a list of pairs stands for. -/
def expand (ps : List NackPair) : List UInt16 := ps.flatMap fun p => expandPair p.fsn p.blp

/-- The pairs stand for exactly the numbers of the list. -/
theorem expand_compress {seqs : List UInt16} (h : seqs.Pairwise (· < ·)) :
    expand (compress seqs) = seqs := by
  induction seqs using compress.induct with
  | case1 => rw [compress, expand, List.flatMap_nil]
  | case2 fsn seqs ih =>
      have hrest := (List.pairwise_cons.1 h).2.sublist (skipCovered_sublist fsn seqs)
      rw [compress, expand, List.flatMap_cons, ← expand, ih hrest]
      exact expandPair_append_skipCovered h

/-- The first numbers of two successive pairs are at least 17 apart. -/
theorem length_compress_le {seqs : List UInt16} (h : seqs.Pairwise (· < ·)) {a : ℕ}
    (ha : a ≤ 65552) (hmin : ∀ s ∈ seqs, a ≤ s.toNat) :
    17 * (compress seqs).length ≤ 65552 - a := by
  induction seqs using compress.induct generalizing a with
  | case1 => simp [compress]
  | case2 fsn seqs ih =>
      have hinc := (List.pairwise_cons.1 h).2
      have hfsn := hmin fsn List.mem_cons_self
      have hlt := fsn.toNat_lt
      -- the bound that the induction carries on to the next pair
      have hrest : ∀ s ∈ skipCovered fsn seqs, fsn.toNat + 17 ≤ s.toNat := by
        intro s hs
        have hfar := ((mem_skipCovered hinc s).1 hs).2
        rw [diff] at hfar
        omega
      have hle := ih (hinc.sublist (skipCovered_sublist fsn seqs)) (by omega) hrest
      rw [compress, List.length_cons]
      omega

/-! ## Reading the pairs back -/

theorem length_flatMap_pairBytes (ps : List NackPair) :
    (ps.flatMap pairBytes).length = 4 * ps.length := by
  induction ps with
  | nil => rfl
  | cons p ps ih =>
      rw [List.flatMap_cons, List.length_append, ih, List.length_cons]
      change 4 + _ = _
      omega

/-- The pairs are read back from behind the header. -/
theorem parsePairs_pairBytes (ps : List NackPair) (pre : List UInt8) (lostSeqs : List UInt16) :
    parsePairs (pre ++ ps.flatMap pairBytes) (pre.length + 4 * ps.length) pre.length lostSeqs =
      some (lostSeqs ++ expand ps) := by
  induction ps generalizing pre lostSeqs with
  | nil =>
      rw [parsePairs, if_neg (by simp), expand, List.flatMap_nil, List.append_nil]
      rfl
  | cons p ps ih =>
      -- the pair is read behind `pre`, the rest of them behind `pre` and the pair
      have hfsn := readU16_put16 pre (put16 p.blp ++ ps.flatMap pairBytes) p.fsn
      have hblp := readU16_put16 (pre ++ put16 p.fsn) (ps.flatMap pairBytes) p.blp
      have hnext := ih (pre ++ pairBytes p) (lostSeqs ++ expandPair p.fsn p.blp)
      have hlen : (pre ++ put16 p.fsn).length = pre.length + 2 := List.length_append
      have hlen' : (pre ++ pairBytes p).length = pre.length + 4 := List.length_append
      rw [hlen] at hblp
      rw [hlen'] at hnext
      simp only [List.append_assoc, pairBytes] at hblp hnext
      rw [parsePairs, if_pos (by simp only [List.length_cons]; omega), List.flatMap_cons]
      simp only [pairBytes, List.append_assoc]
      rw [hfsn, hblp]
      dsimp only [Option.bind_eq_bind, Option.bind_some]
      rw [List.length_cons, show pre.length + 4 * (ps.length + 1) = pre.length + 4 + 4 * ps.length
        by omega, hnext, expand, expand, List.flatMap_cons, ← List.append_assoc]

variable (nack : RtcpNack)

/-- The header and the two sources, in front of the pairs. -/
def header : List UInt8 :=
  [0x81, 205] ++ put16 (UInt16.ofNat ((12 + nack.pairs.length * 4) / 4 - 1)) ++
    put32 nack.senderSsrc ++ put32 nack.mediaSsrc

theorem serialize_eq : serialize nack = header nack ++ nack.pairs.flatMap pairBytes := rfl

theorem length_serialize : (serialize nack).length = 12 + 4 * nack.pairs.length := by
  rw [serialize_eq, List.length_append, length_flatMap_pairBytes]
  rfl

/-- The length field counts the words after the first one. -/
theorem lengthWords_toNat :
    (UInt16.ofNat ((12 + nack.pairs.length * 4) / 4 - 1)).toNat = 2 + nack.pairs.length := by
  have hle := length_compress_le (pairwise_sortUnique nack.lostSeqs) (Nat.zero_le _)
    (fun s _ => Nat.zero_le s.toNat)
  rw [← RtcpNack.pairs] at hle
  rw [UInt16.toNat_ofNat', Nat.mod_eq_of_lt (by omega)]
  omega

/-- The length field counts words, less one. -/
theorem readU16_lengthWords : readU16 (serialize nack) 2 =
    some (UInt16.ofNat ((12 + nack.pairs.length * 4) / 4 - 1)) :=
  readU16_put16 [0x81, 205] _ _

/-- A serialized NACK is read back, sorted and without repetitions. -/
theorem parse_serialize_eq (old : RtcpNack) :
    old.parse (serialize nack) =
      some (true, { nack with lostSeqs := sortUnique nack.lostSeqs }) := by
  have hlen := length_serialize nack
  have hwords := lengthWords_toNat nack
  have hsender : readU32 (serialize nack) 4 = some nack.senderSsrc :=
    readU32_put32 ([0x81, 205] ++ put16 _) _ _
  have hmedia : readU32 (serialize nack) 8 = some nack.mediaSsrc :=
    readU32_put32 ([0x81, 205] ++ put16 _ ++ put32 nack.senderSsrc) _ _
  have hpairs := parsePairs_pairBytes nack.pairs (header nack) []
  -- the pairs stand for the same numbers
  have hexpand : expand nack.pairs = sortUnique nack.lostSeqs :=
    expand_compress (pairwise_sortUnique nack.lostSeqs)
  rw [← serialize_eq, hexpand] at hpairs
  have hfirst : (serialize nack)[0]? = some 0x81 := rfl
  have hpt : (serialize nack)[1]? = some 205 := rfl
  rw [parse, if_neg (by omega), hfirst, hpt, readU16_lengthWords]
  dsimp only [Option.bind_eq_bind, Option.bind_some]
  rw [if_neg (by decide), if_neg (by decide), if_neg (by decide), hwords, if_neg (by omega),
    hsender, hmedia]
  dsimp only [Option.bind_some]
  -- the pairs end where the length field says
  have hend : (2 + nack.pairs.length + 1) * 4 = (header nack).length + 4 * nack.pairs.length := by
    change _ = 12 + _
    omega
  rw [hend]
  change (parsePairs _ _ (header nack).length []).bind _ = _
  rw [hpairs]
  rfl

/-- Whatever the lost numbers are, `parse` accepts the serialized packet and yields the two
sources and the strictly increasing list of exactly the lost numbers. The length field is the size
in words minus one. -/
theorem parse_serialize_nack (old : RtcpNack) :
    ∃ seqs, old.parse (serialize nack) =
        some (true, ⟨nack.senderSsrc, nack.mediaSsrc, seqs⟩) ∧
      seqs.Pairwise (· < ·) ∧ (∀ s, s ∈ seqs ↔ s ∈ nack.lostSeqs) ∧
      ∃ lengthWords, readU16 (serialize nack) 2 = some lengthWords ∧
        (serialize nack).length = 4 * (lengthWords.toNat + 1) := by
  refine ⟨sortUnique nack.lostSeqs, parse_serialize_eq nack old,
    pairwise_sortUnique nack.lostSeqs, fun s => mem_sortUnique, _, readU16_lengthWords nack, ?_⟩
  rw [lengthWords_toNat, length_serialize]
  omega

end CppMeet.Rtp.NackRoundTrip
