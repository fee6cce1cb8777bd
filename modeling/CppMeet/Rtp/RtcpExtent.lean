import CppMeet.Lib.Extent
import CppMeet.Rtp.Rtcp

/-!
# RTCP packets in a compound datagram

`RtcpSR.parse` and `RtcpNack.parse` check the buffer against the size of their fixed fields and
against the size that the length field declares, never the one against the other. A packet that
declares less than its fixed fields is accepted when other bytes follow it, and its fields are then
read from these. All other packets are decoded from their own bytes.
-/

set_option autoImplicit false

namespace CppMeet.Rtp.RtcpExtent

open CppMeet.Lib.BigEndian CppMeet.Lib.Buffer CppMeet.Lib.Extent CppMeet.Rtp.Rtcp

/-- The bytes of the packet that starts with the given word. -/
def declaredSize (first : List UInt8) : ℕ :=
  4 * (((readU16 first 2).map UInt16.toNat).getD 0 + 1)

/-- Every declared size covers the first word. -/
theorem four_le_declaredSize (first : List UInt8) : 4 ≤ declaredSize first := by
  rw [declaredSize]
  omega

/-- The first word is that of a sender report. -/
def IsSr (first : List UInt8) : Prop :=
  first[0]?.map (fun b : UInt8 => (b >>> 6) &&& 0x03) = some 2 ∧ first[1]? = some 200

/-- The first word is that of a NACK. -/
def IsNack (first : List UInt8) : Prop :=
  first[0]?.map (fun b : UInt8 => (b >>> 6) &&& 0x03) = some 2 ∧
    first[0]?.map (fun b : UInt8 => b &&& 0x1F) = some 1 ∧ first[1]? = some 205

instance : DecidablePred IsSr := fun _ => inferInstanceAs (Decidable (_ ∧ _))

instance : DecidablePred IsNack := fun _ => inferInstanceAs (Decidable (_ ∧ _ ∧ _))

/-! ## The first word -/

/-- What the decoders see of the first word. -/
structure Word (data : List UInt8) (first pt : UInt8) (words : UInt16) : Prop where
  first : data[0]? = some first
  pt : data[1]? = some pt
  words : readU16 data 2 = some words

theorem exists_word {data : List UInt8} (h : 4 ≤ data.length) :
    ∃ first pt words, Word data first pt words := by
  obtain ⟨first, hfirst⟩ := exists_getElem? (show 0 < data.length by omega)
  obtain ⟨pt, hpt⟩ := exists_getElem? (show 1 < data.length by omega)
  obtain ⟨words, hwords⟩ := exists_readU16 (show 2 + 2 ≤ data.length by omega)
  exact ⟨first, pt, words, hfirst, hpt, hwords⟩

section Word

variable {data : List UInt8} {first pt : UInt8} {words : UInt16} (h : Word data first pt words)

include h

theorem Word.take : Word (data.take 4) first pt words where
  first := (List.getElem?_take_of_lt (by decide)).trans h.first
  pt := (List.getElem?_take_of_lt (by decide)).trans h.pt
  words := by
    have hwords := h.words
    rw [readU16] at hwords ⊢
    rwa [List.getElem?_take_of_lt (by decide), List.getElem?_take_of_lt (by decide)]

theorem Word.declaredSize : declaredSize data = 4 * (words.toNat + 1) := by
  rw [RtcpExtent.declaredSize, h.words]
  rfl

theorem Word.isSr_iff : IsSr data ↔ (first >>> 6) &&& 0x03 = 2 ∧ pt = 200 := by
  rw [IsSr, h.first, h.pt, Option.map_some, Option.some_inj, Option.some_inj]

theorem Word.isNack_iff :
    IsNack data ↔ (first >>> 6) &&& 0x03 = 2 ∧ first &&& 0x1F = 1 ∧ pt = 205 := by
  rw [IsNack, h.first, h.pt, Option.map_some, Option.map_some, Option.some_inj, Option.some_inj,
    Option.some_inj]

end Word

/-! ## Sender reports -/

/-- The reads of `RtcpSR.parse` behind the checks. -/
def srBody (data : List UInt8) : Option RtcpSR := do
  let ssrc ← readU32 data 4
  let ntpSec ← readU32 data 8
  let ntpFrac ← readU32 data 12
  let rtpTimestamp ← readU32 data 16
  let packetCount ← readU32 data 20
  let octetCount ← readU32 data 24
  return { ssrc, ntpSec, ntpFrac, rtpTimestamp, packetCount, octetCount }

/-- Twenty-eight bytes are the fields of a sender report. -/
theorem exists_srBody {data : List UInt8} (h : 28 ≤ data.length) : ∃ sr, srBody data = some sr := by
  obtain ⟨ssrc, hssrc⟩ := exists_readU32 (show 4 + 4 ≤ data.length by omega)
  obtain ⟨ntpSec, hsec⟩ := exists_readU32 (show 8 + 4 ≤ data.length by omega)
  obtain ⟨ntpFrac, hfrac⟩ := exists_readU32 (show 12 + 4 ≤ data.length by omega)
  obtain ⟨ts, hts⟩ := exists_readU32 (show 16 + 4 ≤ data.length by omega)
  obtain ⟨packets, hpackets⟩ := exists_readU32 (show 20 + 4 ≤ data.length by omega)
  obtain ⟨octets, hoctets⟩ := exists_readU32 (show 24 + 4 ≤ data.length by omega)
  refine ⟨⟨ssrc, ntpSec, ntpFrac, ts, packets, octets⟩, ?_⟩
  rw [srBody, hssrc, hsec, hfrac, hts, hpackets, hoctets]
  rfl

/-- The fields do not depend on what follows. -/
theorem srBody_append {data : List UInt8} (post : List UInt8) (h : 28 ≤ data.length) :
    srBody (data ++ post) = srBody data := by
  rw [srBody, srBody, readU32_append_left post (by omega), readU32_append_left post (by omega),
    readU32_append_left post (by omega), readU32_append_left post (by omega),
    readU32_append_left post (by omega), readU32_append_left post (by omega)]

/-- A sender report reads 28 bytes, whatever it declares. -/
theorem sized_sr : Sized RtcpSR.parse 4 28 IsSr declaredSize := by
  refine sized_of_checks four_le_declaredSize ?_ ?_ (fun _ hleast _ => exists_srBody hleast) ?_
  · -- each failed check is one of the three reasons
    intro sr data hbad
    by_cases hshort : data.length < 28
    · rw [RtcpSR.parse, if_pos hshort]
      rfl
    obtain ⟨first, pt, words, h⟩ := exists_word (show 4 ≤ data.length by omega)
    rw [h.take.isSr_iff, h.take.declaredSize] at hbad
    rw [RtcpSR.parse, if_neg hshort, h.first, h.pt, h.words]
    dsimp only [Option.bind_eq_bind, Option.bind_some]
    split_ifs with hversion hpt hcut
    · rfl
    · rfl
    · rfl
    · exact absurd hbad (not_or.2 ⟨hshort, not_or.2
        ⟨not_not.2 ⟨not_not.1 hversion, not_not.1 hpt⟩, by omega⟩⟩)
  · -- all checks hold, and the reads of the body remain
    intro sr data hleast hgood hfits
    obtain ⟨first, pt, words, h⟩ := exists_word (show 4 ≤ data.length by omega)
    rw [h.take.isSr_iff] at hgood
    rw [h.take.declaredSize] at hfits
    rw [RtcpSR.parse, if_neg (by omega), h.first, h.pt, h.words]
    dsimp only [Option.bind_eq_bind, Option.bind_some]
    rw [if_neg (not_not.2 hgood.1), if_neg (not_not.2 hgood.2), if_neg (by omega),
      srBody]
    simp only [Option.bind_eq_bind, Option.map_bind, Function.comp_def]
    rfl
  · intro data n hleast hfits _
    have happ := srBody_append (data.drop n) (show 28 ≤ (data.take n).length by
      rw [List.length_take_of_le hfits]
      exact hleast)
    rwa [List.take_append_drop, eq_comm] at happ

/-! ## NACK packets -/

/-- The pairs are read inside the declared size. -/
theorem exists_parsePairs {data : List UInt8} {expected : ℕ} (h : expected ≤ data.length)
    (offset : ℕ) (lostSeqs : List UInt16) :
    ∃ seqs, RtcpNack.parsePairs data expected offset lostSeqs = some seqs := by
  induction offset, lostSeqs using RtcpNack.parsePairs.induct expected with
  | case1 offset lostSeqs hroom ih =>
      obtain ⟨fsn, hfsn⟩ := exists_readU16 (show offset + 2 ≤ data.length by omega)
      obtain ⟨blp, hblp⟩ := exists_readU16 (show offset + 2 + 2 ≤ data.length by omega)
      rw [RtcpNack.parsePairs, if_pos hroom, hfsn, hblp]
      exact ih fsn blp
  | case2 offset lostSeqs hroom =>
      rw [RtcpNack.parsePairs, if_neg hroom]
      exact ⟨lostSeqs, rfl⟩

/-- The pairs do not depend on what follows the declared size. -/
theorem parsePairs_append {data : List UInt8} (post : List UInt8) {expected : ℕ}
    (h : expected ≤ data.length) (offset : ℕ) (lostSeqs : List UInt16) :
    RtcpNack.parsePairs (data ++ post) expected offset lostSeqs =
      RtcpNack.parsePairs data expected offset lostSeqs := by
  induction offset, lostSeqs using RtcpNack.parsePairs.induct expected with
  | case1 offset lostSeqs hroom ih =>
      obtain ⟨fsn, hfsn⟩ := exists_readU16 (show offset + 2 ≤ data.length by omega)
      obtain ⟨blp, hblp⟩ := exists_readU16 (show offset + 2 + 2 ≤ data.length by omega)
      rw [RtcpNack.parsePairs, RtcpNack.parsePairs, if_pos hroom, if_pos hroom,
        readU16_append_left post (by omega), readU16_append_left post (by omega), hfsn, hblp]
      exact ih fsn blp
  | case2 offset lostSeqs hroom =>
      rw [RtcpNack.parsePairs, RtcpNack.parsePairs, if_neg hroom, if_neg hroom]

/-- The reads of `RtcpNack.parse` behind the checks. -/
def nackBody (data : List UInt8) : Option RtcpNack := do
  let senderSsrc ← readU32 data 4
  let mediaSsrc ← readU32 data 8
  let lostSeqs ← RtcpNack.parsePairs data (declaredSize (data.take 4)) 12 []
  return { senderSsrc, mediaSsrc, lostSeqs }

theorem exists_nackBody {data : List UInt8} (h : 12 ≤ data.length)
    (hfits : declaredSize (data.take 4) ≤ data.length) : ∃ nack, nackBody data = some nack := by
  obtain ⟨senderSsrc, hsender⟩ := exists_readU32 (show 4 + 4 ≤ data.length by omega)
  obtain ⟨mediaSsrc, hmedia⟩ := exists_readU32 (show 8 + 4 ≤ data.length by omega)
  obtain ⟨lostSeqs, hlost⟩ := exists_parsePairs hfits 12 []
  refine ⟨⟨senderSsrc, mediaSsrc, lostSeqs⟩, ?_⟩
  rw [nackBody, hsender, hmedia, hlost]
  rfl

/-- A NACK does not depend on what follows its declared size. -/
theorem nackBody_append {data : List UInt8} (post : List UInt8) (h : 12 ≤ data.length)
    (hfits : declaredSize (data.take 4) ≤ data.length) :
    nackBody (data ++ post) = nackBody data := by
  have hfirst : (data ++ post).take 4 = data.take 4 := List.take_append_of_le_length (by omega)
  rw [nackBody, nackBody, hfirst, readU32_append_left post (by omega),
    readU32_append_left post (by omega), parsePairs_append post hfits]

/-- A NACK reads twelve bytes and the pairs it declares. -/
theorem sized_nack : Sized RtcpNack.parse 4 12 IsNack declaredSize := by
  refine sized_of_checks four_le_declaredSize ?_ ?_
    (fun _ hleast hfits => exists_nackBody hleast hfits) ?_
  · -- each failed check is one of the three reasons
    intro nack data hbad
    by_cases hshort : data.length < 12
    · rw [RtcpNack.parse, if_pos hshort]
      rfl
    obtain ⟨first, pt, words, h⟩ := exists_word (show 4 ≤ data.length by omega)
    rw [h.take.isNack_iff, h.take.declaredSize] at hbad
    rw [RtcpNack.parse, if_neg hshort, h.first, h.pt, h.words]
    dsimp only [Option.bind_eq_bind, Option.bind_some]
    split_ifs with hversion hfmt hpt hcut
    · rfl
    · rfl
    · rfl
    · rfl
    · exact absurd hbad (not_or.2 ⟨hshort, not_or.2
        ⟨not_not.2 ⟨not_not.1 hversion, not_not.1 hfmt, not_not.1 hpt⟩, by omega⟩⟩)
  · -- all checks hold, and the pairs remain
    intro nack data hleast hgood hfits
    obtain ⟨first, pt, words, h⟩ := exists_word (show 4 ≤ data.length by omega)
    rw [h.take.isNack_iff] at hgood
    rw [h.take.declaredSize] at hfits
    rw [RtcpNack.parse, if_neg (by omega), h.first, h.pt, h.words]
    dsimp only [Option.bind_eq_bind, Option.bind_some]
    rw [if_neg (not_not.2 hgood.1), if_neg (not_not.2 hgood.2.1), if_neg (not_not.2 hgood.2.2),
      if_neg (by omega), nackBody, h.take.declaredSize, Nat.mul_comm]
    simp only [Option.bind_eq_bind, Option.map_bind, Function.comp_def]
    rfl
  · -- the pairs end where the declared size does
    intro data n hleast hfits hn
    have hlen := List.length_take_of_le hfits
    have hfirst : (data.take n).take 4 = data.take 4 := by
      rw [List.take_take, Nat.min_eq_left (by omega)]
    have happ := nackBody_append (data.drop n) (show 12 ≤ (data.take n).length by omega)
      (by rw [hfirst, hlen, hn])
    rwa [List.take_append_drop, eq_comm] at happ

/-! ## Both packets -/

/-- Two buffers that agree on the packet at their start give one outcome, whatever follows it and
whatever the objects held, exactly when the packet is of another kind or declares the size of its
fixed fields at least. -/
theorem extent_iff {data : List UInt8} {words : UInt16} (hwords : readU16 data 2 = some words)
    (hfits : 4 * (words.toNat + 1) ≤ data.length) (sr : RtcpSR) (nack : RtcpNack) :
    ((∀ data', SameExtent (4 * (words.toNat + 1)) data data' →
        SameOutcome RtcpSR.parse sr data data') ↔ (IsSr data → 6 ≤ words.toNat)) ∧
      ((∀ data', SameExtent (4 * (words.toNat + 1)) data data' →
        SameOutcome RtcpNack.parse nack data data') ↔ (IsNack data → 2 ≤ words.toNat)) := by
  obtain ⟨first, pt, words', h⟩ := exists_word (show 4 ≤ data.length by omega)
  obtain rfl := Option.some.inj (h.words.symm.trans hwords)
  have hsr := sized_sr.sameOutcome_iff (by rw [h.take.declaredSize]; exact hfits) sr
  have hnack := sized_nack.sameOutcome_iff (by rw [h.take.declaredSize]; exact hfits) nack
  rw [h.take.declaredSize, h.take.isSr_iff, ← h.isSr_iff] at hsr
  rw [h.take.declaredSize, h.take.isNack_iff, ← h.isNack_iff] at hnack
  rw [hsr, hnack]
  exact ⟨imp_congr_right fun _ => by omega, imp_congr_right fun _ => by omega⟩

/-- A report and a NACK of their proper sizes, with one more word behind each. -/
theorem extent_iff_proper :
    let report : List UInt8 := [0x80, 200, 0, 6] ++ List.replicate 28 0
    let lost : List UInt8 := [0x81, 205, 0, 3] ++ List.replicate 16 0
    (∀ data', SameExtent 28 report data' →
      SameOutcome RtcpSR.parse ⟨1, 2, 3, 4, 5, 6⟩ report data') ∧
      ∀ data', SameExtent 16 lost data' → SameOutcome RtcpNack.parse ⟨1, 2, [3]⟩ lost data' := by
  intro report lost
  have hreport : readU16 report 2 = some 6 := by decide
  have hlost : readU16 lost 2 = some 3 := by decide
  exact ⟨(extent_iff hreport (by decide) ⟨1, 2, 3, 4, 5, 6⟩ ⟨1, 2, [3]⟩).1.2 fun _ => by decide,
    (extent_iff hlost (by decide) ⟨1, 2, 3, 4, 5, 6⟩ ⟨1, 2, [3]⟩).2.2 fun _ => by decide⟩

/-- A report of one word is accepted, and all its fields come from the bytes behind it. -/
theorem extent_leak :
    ¬ ∀ (words : UInt16) (data data' : List UInt8) (sr : RtcpSR) (nack : RtcpNack),
      readU16 data 2 = some words → SameExtent (4 * (words.toNat + 1)) data data' →
        SameOutcome RtcpSR.parse sr data data' ∧ SameOutcome RtcpNack.parse nack data data' := by
  intro hall
  have hextent : SameExtent 4 ([0x80, 200, 0, 0] ++ List.replicate 24 0)
      ([0x80, 200, 0, 0] ++ List.replicate 24 1) := ⟨by decide, by decide, by decide⟩
  obtain ⟨⟨_, hzeros, hones⟩, -⟩ := hall 0 _ _ ⟨1, 2, 3, 4, 5, 6⟩ ⟨1, 2, []⟩ (by decide) hextent
  have hdiffer : RtcpSR.parse ⟨1, 2, 3, 4, 5, 6⟩ ([0x80, 200, 0, 0] ++ List.replicate 24 0) ≠
      RtcpSR.parse ⟨1, 2, 3, 4, 5, 6⟩ ([0x80, 200, 0, 0] ++ List.replicate 24 1) := by decide
  exact hdiffer (hzeros.trans hones.symm)

end CppMeet.Rtp.RtcpExtent
