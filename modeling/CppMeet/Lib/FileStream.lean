import Mathlib.Algebra.Order.Group.Nat
import Mathlib.Data.List.Basic
import Mathlib.Data.Nat.ModEq

/-!
# Reading a file in blocks

A binary input file as `std::ifstream` reads it: the content, the position, and the two error flags.
A read that reaches the end of the file sets both, and nothing is read until they are cleared.

A reader that goes back to the beginning whenever a read gives nothing (`readOrRewind`) sees the
blocks of the file over and over: the `m`-th read gives block `m` modulo the number of blocks
(`blocksRead_eq`). The last block of a pass may be short; none reaches over the end into the next
pass.
-/

set_option autoImplicit false

namespace CppMeet.Lib.FileStream

universe u

variable {α : Type u}

/-- The content, the read position and the two flags of a stream. -/
structure IFStream (α : Type u) where
  content : List α
  pos : ℕ := 0
  eof : Bool := false
  fail : Bool := false
  deriving DecidableEq, Repr

/-- `read(buffer, n)`: what is read, of which `gcount()` is the length. -/
def read (f : IFStream α) (n : ℕ) : List α × IFStream α :=
  if f.eof || f.fail then ([], { f with fail := true })
  else
    let got := (f.content.drop f.pos).take n
    let short := decide (got.length < n)
    (got, { f with pos := f.pos + got.length, eof := short, fail := short })

/-- The flags are cleared; the position stays. -/
def clear (f : IFStream α) : IFStream α := { f with eof := false, fail := false }

/-- `seekg(0, std::ios::beg)`. -/
def seekBegin (f : IFStream α) : IFStream α :=
  { f with eof := false, pos := if f.fail then f.pos else 0 }

/-- Reads, and reads once more from the beginning when that gave nothing. -/
def readOrRewind (f : IFStream α) (n : ℕ) : List α × IFStream α :=
  let got := read f n
  if got.1 = [] then read (seekBegin (clear got.2)) n else got

/-- What so many reads give. -/
def blocksRead (f : IFStream α) (n : ℕ) : ℕ → List (List α)
  | 0 => []
  | m + 1 => (readOrRewind f n).1 :: blocksRead (readOrRewind f n).2 n m

/-- The `k`-th block of `n` elements. -/
def block (content : List α) (n k : ℕ) : List α := (content.drop (n * k)).take n

/-- How many blocks of `n` elements hold the content. -/
def blocks (content : List α) (n : ℕ) : ℕ := (content.length + (n - 1)) / n

section Blocks

variable {content : List α} {n k m : ℕ} {f : IFStream α}

theorem lt_blocks_iff (hn : 0 < n) : k < blocks content n ↔ n * k < content.length := by
  rw [blocks, Nat.lt_div_iff_mul_lt hn, Nat.add_sub_cancel, Nat.mul_comm]

/-- A block is full unless the content ends in it. -/
theorem length_block : (block content n k).length = min n (content.length - n * k) := by
  rw [block, List.length_take, List.length_drop]

theorem block_eq_nil_iff (hn : 0 < n) : block content n k = [] ↔ blocks content n ≤ k := by
  rw [← List.length_eq_zero_iff, length_block, ← not_lt, lt_blocks_iff hn]
  omega

/-- The next read gives block `m`, counted over all passes. -/
structure Ready (content : List α) (n m : ℕ) (f : IFStream α) : Prop where
  content_eq : f.content = content
  next : f.eof = false ∧ f.fail = false ∧ (∃ k ≤ blocks content n, f.pos = n * k ∧
      k ≡ m [MOD blocks content n]) ∨
    (f.eof || f.fail) = true ∧ 0 ≡ m [MOD blocks content n]

/-- A read of a stream at its end or after a failure fails. -/
theorem read_of_bad (h : (f.eof || f.fail) = true) : read f n = ([], { f with fail := true }) :=
  if_pos h

/-- A read inside the file gives the block that begins there. -/
theorem ready_read (hn : 0 < n) (hcontent : f.content = content) (heof : f.eof = false)
    (hfail : f.fail = false) (hk : k < blocks content n) (hpos : f.pos = n * k)
    (hm : k ≡ m [MOD blocks content n]) :
    (read f n).1 = block content n k ∧ Ready content n (m + 1) (read f n).2 := by
  have hread : read f n = (block content n k,
      { f with
        pos := f.pos + (block content n k).length
        eof := decide ((block content n k).length < n)
        fail := decide ((block content n k).length < n) }) := by
    rw [read, heof, hfail, hcontent, hpos]
    rfl
  rw [hread]
  refine ⟨rfl, hcontent, ?_⟩
  have hnext : k + 1 ≡ m + 1 [MOD blocks content n] := hm.add_right 1
  by_cases hshort : (block content n k).length < n
  · -- the last block of the pass
    right
    have hlast : k + 1 = blocks content n := by
      have hend : ¬ k + 1 < blocks content n := by
        rw [lt_blocks_iff hn, Nat.mul_succ]
        rw [length_block] at hshort
        omega
      omega
    rw [hlast] at hnext
    refine ⟨by simp [hshort], ?_⟩
    exact (Nat.modEq_zero_iff_dvd.2 (dvd_refl _)).symm.trans hnext
  · left
    have hfull : (block content n k).length = n := by
      rw [length_block] at hshort ⊢
      omega
    refine ⟨decide_eq_false hshort, decide_eq_false hshort, k + 1, hk, ?_, hnext⟩
    dsimp only
    rw [hpos, hfull, Nat.mul_succ]

/-- A read that reaches the end begins again at the front, so it has a block in every case. -/
theorem ready_readOrRewind (hn : 0 < n) (hcontent : content ≠ []) (h : Ready content n m f) :
    (readOrRewind f n).1 = block content n (m % blocks content n) ∧
      Ready content n (m + 1) (readOrRewind f n).2 := by
  have hsome : 0 < blocks content n := by
    rw [lt_blocks_iff hn, Nat.mul_zero]
    exact List.length_pos_iff.2 hcontent
  -- a read that gives nothing is followed by one from the beginning
  have hrewind : (read f n).1 = [] → (read f n).2.content = content →
      0 ≡ m [MOD blocks content n] →
      (readOrRewind f n).1 = block content n (m % blocks content n) ∧
        Ready content n (m + 1) (readOrRewind f n).2 := by
    intro hnil hsame hm
    have hzero : m % blocks content n = 0 := by
      rw [← hm, Nat.zero_mod]
    have hstart : (seekBegin (clear (read f n).2)).pos = n * 0 := by
      rw [Nat.mul_zero]
      rfl
    rw [readOrRewind, if_pos hnil, hzero]
    exact ready_read hn hsame rfl rfl hsome hstart hm
  rcases h.next with ⟨heof, hfail, k, hk, hpos, hm⟩ | ⟨hbad, hm⟩
  · rcases Nat.lt_or_eq_of_le hk with hlt | rfl
    · obtain ⟨hgot, hready⟩ := ready_read hn h.content_eq heof hfail hlt hpos hm
      have hmod : m % blocks content n = k := by
        rw [← hm, Nat.mod_eq_of_lt hlt]
      have hne : (read f n).1 ≠ [] := by
        rw [hgot, Ne, block_eq_nil_iff hn]
        omega
      rw [readOrRewind, if_neg hne, hmod]
      exact ⟨hgot, hready⟩
    · -- the position is the end of the file
      have hgot : (read f n).1 = block content n (blocks content n) := by
        rw [read, heof, hfail, h.content_eq, hpos]
        rfl
      have hsame : (read f n).2.content = content := by
        rw [read, heof, hfail]
        exact h.content_eq
      have hwrap : 0 ≡ blocks content n [MOD blocks content n] :=
        (Nat.modEq_zero_iff_dvd.2 (dvd_refl _)).symm
      exact hrewind (hgot.trans ((block_eq_nil_iff hn).2 (Nat.le_refl _))) hsame (hwrap.trans hm)
  · rw [read_of_bad hbad] at hrewind
    exact hrewind rfl h.content_eq hm

theorem blocksRead_eq (hn : 0 < n) (hcontent : content ≠ []) (h : Ready content n m f) (j : ℕ) :
    blocksRead f n j =
      (List.range j).map fun i => block content n ((m + i) % blocks content n) := by
  induction j generalizing m f with
  | zero => rfl
  | succ j ih =>
      obtain ⟨hgot, hready⟩ := ready_readOrRewind hn hcontent h
      rw [blocksRead, hgot, ih hready, List.range_succ_eq_map, List.map_cons, List.map_map,
        Nat.add_zero]
      refine congrArg (_ :: ·) (List.map_congr_left fun i _ => ?_)
      rw [Function.comp_apply, Nat.succ_eq_add_one, Nat.add_right_comm, Nat.add_assoc m i 1]

/-- A file that has been opened. -/
theorem ready_open (content : List α) (n : ℕ) : Ready content n 0 { content := content } where
  content_eq := rfl
  next := Or.inl ⟨rfl, rfl, 0, Nat.zero_le _, (Nat.mul_zero n).symm, rfl⟩

/-- Nothing is ever read from an empty file. -/
theorem blocksRead_nil {f : IFStream α} (hcontent : f.content = []) (j : ℕ) :
    blocksRead f n j = List.replicate j [] := by
  have hread : ∀ f : IFStream α, f.content = [] →
      (read f n).1 = [] ∧ (read f n).2.content = [] := by
    intro f hf
    rw [read]
    split
    · exact ⟨rfl, hf⟩
    · exact ⟨by simp [hf], hf⟩
  induction j generalizing f with
  | zero => rfl
  | succ j ih =>
      obtain ⟨hnil, hsame⟩ := hread f hcontent
      obtain ⟨hnil', hsame'⟩ := hread (seekBegin (clear (read f n).2)) hsame
      rw [blocksRead, readOrRewind, if_pos hnil, hnil', ih hsame', List.replicate_succ]

end Blocks

end CppMeet.Lib.FileStream
