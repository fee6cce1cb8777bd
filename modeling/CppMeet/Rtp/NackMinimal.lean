import CppMeet.Rtp.NackRoundTrip

/-!
# NACK packets carry as few pairs as possible

A pair reaches at most 17 numbers, its first number and the sixteen after it. The greedy packing
starts a pair at the smallest number that is left, and a pair of any other encoding that holds this
number cannot reach farther than the greedy one does, so the numbers that are skipped to are left
to the other pairs (`length_compress_le_of_reaches`).
-/

set_option autoImplicit false

namespace CppMeet.Rtp.NackMinimal

open CppMeet.Lib.SortUnique CppMeet.Rtp.Rtcp CppMeet.Rtp.Rtcp.RtcpNack CppMeet.Rtp.NackRoundTrip

/-- No set bit stands for a sum beyond 65535. -/
def NoWrap (p : NackPair) : Prop :=
  ∀ i, i < 16 → p.blp.toNat.testBit i = true → p.fsn.toNat + i + 1 ≤ 65535

/-- The pairs do not wrap and stand for exactly the numbers in the list. -/
structure Encodes (ps : List NackPair) (seqs : List UInt16) : Prop where
  noWrap : ∀ p ∈ ps, NoWrap p
  same : ∀ s, s ∈ expand ps ↔ s ∈ seqs

/-- The numbers that a pair can stand for. -/
def Reaches (p : NackPair) (s : UInt16) : Prop :=
  p.fsn.toNat ≤ s.toNat ∧ s.toNat ≤ p.fsn.toNat + 16

/-! ## The reach of a pair -/

theorem mem_expand {ps : List NackPair} {s : UInt16} :
    s ∈ expand ps ↔ ∃ p ∈ ps, s ∈ expandPair p.fsn p.blp := List.mem_flatMap

/-- A pair that does not wrap covers the sixteen numbers behind its own. -/
theorem reaches_of_mem {p : NackPair} (hno : NoWrap p) {s : UInt16}
    (hs : s ∈ expandPair p.fsn p.blp) : Reaches p s := by
  rw [expandPair, List.mem_cons, List.mem_map] at hs
  rcases hs with rfl | ⟨i, hi, rfl⟩
  · exact ⟨Nat.le_refl _, Nat.le_add_right _ _⟩
  · rw [List.mem_filter, List.mem_range, decide_eq_true_eq, and_shift_ne_zero] at hi
    have hsum := hno i hi.1 hi.2
    rw [Reaches, UInt16.toNat_ofNat', Nat.mod_eq_of_lt (by omega)]
    omega

/-- The greedy packing stays ahead of every list of pairs that reaches all numbers. -/
theorem length_compress_le_of_reaches {seqs : List UInt16} (hinc : seqs.Pairwise (· < ·))
    {ps : List NackPair} (hreach : ∀ s ∈ seqs, ∃ p ∈ ps, Reaches p s) :
    (compress seqs).length ≤ ps.length := by
  induction seqs using compress.induct generalizing ps with
  | case1 => rw [compress]; exact Nat.zero_le _
  | case2 fsn seqs ih =>
      have hrest := (List.pairwise_cons.1 hinc).2
      obtain ⟨p, hp, hfsn⟩ := hreach fsn List.mem_cons_self
      -- without the pair that reaches the smallest number, the skipped numbers are still reached
      have hleft : ∀ s ∈ skipCovered fsn seqs, ∃ q ∈ ps.erase p, Reaches q s := by
        intro s hs
        obtain ⟨hmem, hfar⟩ := (mem_skipCovered hrest s).1 hs
        obtain ⟨q, hq, hqs⟩ := hreach s (List.mem_cons_of_mem _ hmem)
        refine ⟨q, (List.mem_erase_of_ne ?_).2 hq, hqs⟩
        rintro rfl
        have hle := hfsn.1
        have hge := hqs.2
        rw [diff] at hfar
        omega
      have hle := ih (hrest.sublist (skipCovered_sublist fsn seqs)) hleft
      have hpos := List.length_pos_of_mem hp
      rw [List.length_erase_of_mem hp] at hle
      rw [compress, List.length_cons]
      omega

/-! ## The pairs of a packet -/

/-- A set bit of a packed pair stands for one of the numbers, so its sum is a 16-bit number. -/
theorem noWrap_compress {seqs : List UInt16} (hinc : seqs.Pairwise (· < ·)) :
    ∀ p ∈ compress seqs, NoWrap p := by
  induction seqs using compress.induct with
  | case1 => simp [compress]
  | case2 fsn seqs ih =>
      obtain ⟨habove, hrest⟩ := List.pairwise_cons.1 hinc
      rw [compress, List.forall_mem_cons]
      refine ⟨?_, ih (hrest.sublist (skipCovered_sublist fsn seqs))⟩
      intro i _ hbit
      rcases (testBit_blpLoop fsn 0 hrest habove i).1 hbit with hzero | ⟨_, s, _, hs⟩
      · simp at hzero
      · have hlt := s.toNat_lt
        dsimp only
        omega

variable (nack : RtcpNack)

/-- The pairs of the encoder encode its list. -/
theorem encodes_pairs : Encodes nack.pairs nack.lostSeqs where
  noWrap := noWrap_compress (pairwise_sortUnique nack.lostSeqs)
  same s := by
    rw [pairs, expand_compress (pairwise_sortUnique nack.lostSeqs)]
    exact mem_sortUnique

/-- The pairs that `serialize` emits are an encoding of the lost numbers that does not wrap, and
every such encoding takes at least as many pairs. -/
theorem serialize_minimal :
    serialize nack = header nack ++ nack.pairs.flatMap pairBytes ∧
      Encodes nack.pairs nack.lostSeqs ∧
      ∀ ps, Encodes ps nack.lostSeqs → nack.pairs.length ≤ ps.length := by
  refine ⟨rfl, encodes_pairs nack, ?_⟩
  intro ps henc
  apply length_compress_le_of_reaches (pairwise_sortUnique nack.lostSeqs)
  intro s hs
  obtain ⟨p, hp, hps⟩ := mem_expand.1 ((henc.same s).2 (mem_sortUnique.1 hs))
  exact ⟨p, hp, reaches_of_mem (henc.noWrap p hp) hps⟩

/-- Eighteen numbers in a row, dealt out to two half empty pairs. The greedy packing fills its first
pair and takes no more of them. -/
theorem serialize_minimal_two_pairs :
    let nack : RtcpNack := ⟨1, 2, (List.range 18).map fun i => UInt16.ofNat (65518 + i)⟩
    Encodes [⟨65518, 0xff⟩, ⟨65527, 0xff⟩] nack.lostSeqs ∧ nack.pairs.length ≤ 2 := by
  intro nack
  have henc : Encodes [⟨65518, 0xff⟩, ⟨65527, 0xff⟩] nack.lostSeqs := by
    refine ⟨?_, ?_⟩
    · simp only [List.forall_mem_cons, NoWrap]
      refine ⟨by decide, by decide, by simp⟩
    · intro s
      have hsame : expand [⟨65518, 0xff⟩, ⟨65527, 0xff⟩] = nack.lostSeqs := by decide
      rw [hsame]
  exact ⟨henc, (serialize_minimal nack).2.2 _ henc⟩

end CppMeet.Rtp.NackMinimal
