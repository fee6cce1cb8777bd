import CppMeet.Weak.FecRecovery

/-!
# The header of a recovered packet

The FEC packet protects the payloads only. The decoder gives the packet that it recovers the number
of the empty slot and takes payload type, SSRC and timestamp from the first packet that it has of
the group (`feed_last_build`). Payload type and SSRC are therefore right in a group that shares
them; timestamp and marker are those of the lost packet only by chance.
-/

set_option autoImplicit false

namespace CppMeet.Weak.FecHeaders

open CppMeet.Lib.Run CppMeet.Rtp.Packet CppMeet.Weak.Fec CppMeet.Weak.Fec.XorFecDecoder
open CppMeet.Weak.FecRecovery CppMeet.Weak.FecRecovery.AlignedGroup

variable {g : ℕ}

/-- The first slot of a group other than `k`. -/
def firstOther (hg : 2 ≤ g) (k : Fin g) : Fin g :=
  ⟨if (k : ℕ) = 0 then 1 else 0, by split_ifs <;> omega⟩

/-- The fields of the fixed header in which a recovered packet is to agree with the lost one. -/
structure SameHeader (pkt lost : RtpPacket) : Prop where
  sequence : pkt.sequence = lost.sequence
  payloadType : pkt.payloadType = lost.payloadType
  ssrc : pkt.ssrc = lost.ssrc
  timestamp : pkt.timestamp = lost.timestamp
  marker : pkt.marker = lost.marker

/-- The first packet that is left is the first other one. -/
theorem head?_erase_finRange (hg : 2 ≤ g) (k : Fin g) :
    ((List.finRange g).erase k).head? = some (firstOther hg k) := by
  obtain ⟨n, rfl⟩ := Nat.exists_eq_add_of_le' hg
  rw [List.finRange_succ, List.finRange_succ, List.map_cons]
  by_cases hk : k = 0
  · subst hk
    rw [List.erase_cons_head]
    rfl
  · have hzero : (0 : Fin (n + 2)) ≠ k := Ne.symm hk
    have hval : (k : ℕ) ≠ 0 := fun h => hk (Fin.ext h)
    rw [List.erase_cons_tail (by simpa using hzero), List.head?_cons]
    congr 1
    exact Fin.ext (if_neg hval).symm

/-- The recovered packet is built from the fields of the first packet that is there. -/
theorem rebuild_eq {grp : Group g} {p : RtpPacket} (h : grp.present.head? = some p)
    (base : UInt16) (fec : RtpPacket) (k : Fin g) :
    ∃ payload, grp.rebuild base fec k =
      .build p.payloadType (UInt16.ofNat (base.toNat + k)) p.timestamp p.ssrc payload := by
  rw [Group.rebuild, h]
  exact ⟨_, rfl⟩

/-- The getter masks the payload type. -/
theorem payloadType_and (pkt : RtpPacket) : pkt.payloadType &&& 0x7F = pkt.payloadType := by
  unfold RtpPacket.payloadType
  split_ifs
  · rfl
  · rw [UInt8.and_assoc, UInt8.and_self]

section Recovered

variable {G : AlignedGroup g} {f : RtpPacket} {k : Fin g} {history before : List Symbol}
  {last : Symbol}

/-- The last packet of the group is answered with the lost number under the other fields of the
first other packet, and a clear marker. -/
theorem feed_last_build (hg : 2 ≤ g)
    (hnew : (run next (init g) history).groups[G.base]? = none) (hlast : last.base g = G.base)
    (hperm : (ofGroup G before ++ [last]).Perm (G.symbols f k)) :
    ∃ payload, ((run next (init g) (history ++ before)).feed last).2 =
      some (.build (G.data (firstOther hg k)).payloadType (G.data k).sequence
        (G.data (firstOther hg k)).timestamp (G.data (firstOther hg k)).ssrc payload) := by
  obtain ⟨-, grp, hfeed, hfec, hpkts⟩ := feed_last hnew hlast hperm
  have hhead : grp.present.head? = some (G.data (firstOther hg k)) := by
    rw [present_eq hpkts, List.head?_map, head?_erase_finRange hg]
    rfl
  obtain ⟨payload, hbuild⟩ := rebuild_eq hhead G.base f k
  have hseq := rebuild_sequence_eq (G := G) (f := f) (k := k) grp
  rw [hbuild, RtpPacket.build_sequence] at hseq
  rw [hseq] at hbuild
  exact ⟨payload, by rw [hfeed, recover_rebuild hfec hpkts, hbuild]⟩

end Recovered

/-- In a group whose packets share payload type and SSRC, the recovered packet has the sequence
number, the payload type and the SSRC of the lost one. Its timestamp is that of the first other
packet of the group, and its marker is clear. -/
theorem recovered_header (hg : 2 ≤ g) (G : AlignedGroup g)
    (hshared : ∀ i j, (G.data i).payloadType = (G.data j).payloadType ∧
      (G.data i).ssrc = (G.data j).ssrc)
    (e : XorFecEncoder) (hsize : e.groupSize = g) (hcount : e.count = 0) :
    ∃ f, (e.feedAll (List.ofFn G.data)).2 = List.replicate (g - 1) none ++ [some f] ∧
      ∀ (k : Fin g) (history before : List Symbol) (last : Symbol),
        (run next (init g) history).groups[G.base]? = none →
        last.base g = G.base →
        (ofGroup G before ++ [last]).Perm (G.symbols f k) →
        ∃ pkt, ((run next (init g) (history ++ before)).feed last).2 = some pkt ∧
          pkt.sequence = (G.data k).sequence ∧ pkt.payloadType = (G.data k).payloadType ∧
          pkt.ssrc = (G.data k).ssrc ∧
          pkt.timestamp = (G.data (firstOther hg k)).timestamp ∧ pkt.marker = false := by
  refine ⟨_, encode_group (by omega) G hsize hcount, fun k history before last hnew hlast hperm =>
    ?_⟩
  obtain ⟨payload, hfeed⟩ := feed_last_build hg hnew hlast hperm
  obtain ⟨hpt, hssrc⟩ := hshared (firstOther hg k) k
  refine ⟨_, hfeed, RtpPacket.build_sequence _ _ _ _ _ _, ?_, ?_,
    RtpPacket.build_timestamp _ _ _ _ _ _, RtpPacket.build_marker _ _ _ _ _ _⟩
  · rw [RtpPacket.build_payloadType, payloadType_and, hpt]
  · rw [RtpPacket.build_ssrc, hssrc]

/-- Two packets of a video stream, of different frames; the second ends its frame. -/
def twoFrames : AlignedGroup 2 where
  base := 4
  data
    | 0 => .build 96 4 0 1 [1] false
    | 1 => .build 96 5 3000 1 [1] true
  dvd := by decide
  fits := by decide
  sequence_eq := by decide

/-- Their FEC packet. -/
def twoFramesFec : RtpPacket := .build 127 0 4 0xFEC00000 [0]

theorem recovered_header_twoFrames :
    ∃ f pkt, (XorFecEncoder.feedAll { groupSize := 2 } (List.ofFn twoFrames.data)).2 =
        [none, some f] ∧
      ((run next (init 2) [twoFrames.symbol 0]).feed ⟨f, true⟩).2 = some pkt ∧
      pkt.payloadType = 96 ∧ pkt.ssrc = 1 ∧ pkt.timestamp = 0 ∧ pkt.marker = false := by
  obtain ⟨f, hencode, hrecover⟩ := recovered_header (by decide : 2 ≤ 2) twoFrames (by decide)
    { groupSize := 2 } rfl rfl
  have hfec : (XorFecEncoder.feedAll { groupSize := 2 } (List.ofFn twoFrames.data)).2 =
      [none, some twoFramesFec] := by decide
  obtain rfl : f = twoFramesFec := by
    rw [hfec] at hencode
    simpa using hencode.symm
  obtain ⟨pkt, hpkt, -, hpt, hssrc, hts, hmarker⟩ := hrecover 1 [] [twoFrames.symbol 0]
    ⟨twoFramesFec, true⟩ rfl (by decide) (by decide)
  exact ⟨_, pkt, hencode, hpkt, hpt, hssrc, hts, hmarker⟩

/-- When the second packet is lost, it comes back with the timestamp of the first. -/
theorem not_sameHeader_twoFrames :
    ¬ ∀ (g : ℕ), 2 ≤ g → ∀ (G : AlignedGroup g) (pt : UInt8) (ssrc : UInt32),
      (∀ i, ∃ seq ts bytes m, G.data i = .build pt seq ts ssrc bytes m) →
      ∀ (e : XorFecEncoder), e.groupSize = g → e.count = 0 → ∀ f,
      (e.feedAll (List.ofFn G.data)).2 = List.replicate (g - 1) none ++ [some f] →
      ∀ (k : Fin g) (order : List Symbol) (last : Symbol), (order ++ [last]).Perm (G.symbols f k) →
      ∀ pkt, ((run next (init g) order).feed last).2 = some pkt → SameHeader pkt (G.data k) := by
  intro h
  have hfec : (XorFecEncoder.feedAll { groupSize := 2 } (List.ofFn twoFrames.data)).2 =
      [none, some twoFramesFec] := by decide
  have hnew : (run next (init 2) []).groups[twoFrames.base]? = none := rfl
  have horder : ([twoFrames.symbol 0] ++ [(⟨twoFramesFec, true⟩ : Symbol)]).Perm
      (twoFrames.symbols twoFramesFec 1) := by decide
  have hperm : (ofGroup twoFrames [twoFrames.symbol 0] ++
      [(⟨twoFramesFec, true⟩ : Symbol)]).Perm (twoFrames.symbols twoFramesFec 1) := by decide
  -- the second packet is lost, and the decoder builds one with timestamp 0
  obtain ⟨payload, hfeed⟩ := feed_last_build (le_refl 2) hnew (by decide) hperm
  have hbuilt : ∀ i, ∃ seq ts bytes m, twoFrames.data i = .build 96 seq ts 1 bytes m
    | 0 => ⟨4, 0, [1], false, rfl⟩
    | 1 => ⟨5, 3000, [1], true, rfl⟩
  have hsame := h 2 (le_refl 2) twoFrames 96 1 hbuilt { groupSize := 2 } rfl rfl _ hfec 1 _ _ horder
    _ hfeed
  have hts := hsame.timestamp
  rw [RtpPacket.build_timestamp] at hts
  revert hts
  decide

end CppMeet.Weak.FecHeaders
