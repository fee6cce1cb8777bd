import CppMeet.Weak.FecStream
import Mathlib.Data.List.Induction

/-!
# The groups of the encoder and of the decoder

The encoder cuts a stream into groups by counting its packets, the decoder by rounding sequence
numbers down. For the packets of one group the two agree exactly when the base of the group is a
multiple of the group size and its numbers do not wrap (`agree_iff`). A stream that starts at a
multiple of the group size has only such groups as long as it does not wrap in the middle of one
(`groups_agree`).
-/

set_option autoImplicit false

namespace CppMeet.Weak.FecGroups

open CppMeet.Lib.PadXor CppMeet.Lib.Run CppMeet.Rtp.Packet CppMeet.Weak.Fec
open CppMeet.Weak.Fec.XorFecDecoder CppMeet.Weak.FecRecovery CppMeet.Weak.FecStream

variable {g : ℕ}

/-- The packets as data symbols. -/
def dataSymbols (pkts : List RtpPacket) : List Symbol := pkts.map (⟨·, false⟩)

/-- The packets that a decoder has in the slots of an entry after it was fed a stretch of data
packets. -/
def filedUnder (g : ℕ) (pkts : List RtpPacket) (base : UInt16) : List RtpPacket :=
  ((run next (init g) (dataSymbols pkts)).entry base).present

/-- The decoder files exactly the packets of the group under the base that the FEC packet
carries. -/
def Agree (g : ℕ) (group : List RtpPacket) (fec : RtpPacket) : Prop :=
  (filedUnder g group (Symbol.base g ⟨fec, true⟩)).Perm group

instance (group : List RtpPacket) (fec : RtpPacket) : Decidable (Agree g group fec) :=
  inferInstanceAs (Decidable (List.Perm _ _))

/-! ## Data packets only -/

/-- The entries of a decoder that was fed data packets only: nothing is recovered, and every entry
holds what was filed under it. -/
theorem entry_run_data (g : ℕ) (l : List Symbol) (hl : ∀ s ∈ l, s.isFec = false) :
    (run next (init g) l).AtRest ∧ ∀ base,
      ((run next (init g) l).entry base) =
        (l.filter fun s => s.base g = base).foldl Group.file {} ∧
      ((run next (init g) l).entry base).fec = none := by
  induction l using List.reverseRecOn with
  | nil =>
      refine ⟨atRest_init g, fun base => ?_⟩
      have hnone : (init g).groups[base]? = none := by simp [init]
      rw [run_nil, XorFecDecoder.entry, hnone]
      exact ⟨rfl, rfl⟩
  | append_singleton l s ih =>
      obtain ⟨hrest, hentry⟩ := ih fun s' hs' => hl s' (List.mem_append_left _ hs')
      have hdata : s.isFec = false := hl s (by simp)
      rw [run_concat]
      refine ⟨hrest.feed s, fun base => ?_⟩
      have hfec : ((run next (init g) l).filed s).fec = none := by
        rw [XorFecDecoder.filed, Group.file_data hdata, Group.putData_fec]
        exact (hentry _).2
      have hnone : ((run next (init g) l).feed s).2 = none := by
        rw [feed_result s hrest.quiet]
        exact Group.recover_eq_none_of_fec hfec
      -- only the entry of the packet's own base grows
      by_cases hbase : base = s.base g
      · subst hbase
        rw [next, entry_feed_own s hrest.quiet hnone]
        refine ⟨?_, hfec⟩
        rw [XorFecDecoder.filed, (hentry _).1]
        simp
      · rw [next, entry_feed_of_ne s hrest.quiet hbase]
        refine ⟨?_, (hentry base).2⟩
        rw [(hentry base).1]
        simp [Ne.symm hbase]

theorem dataSymbols_isFec {pkts : List RtpPacket} : ∀ s ∈ dataSymbols pkts, s.isFec = false := by
  intro s hs
  obtain ⟨p, -, rfl⟩ := List.mem_map.1 hs
  rfl

/-- An aligned group is filed slot by slot under its base. -/
theorem filedUnder_alignedGroup (G : AlignedGroup g) :
    filedUnder g (List.ofFn G.data) G.base = List.ofFn G.data := by
  have hsymbols : dataSymbols (List.ofFn G.data) = (List.finRange g).map G.symbol := by
    rw [dataSymbols, List.ofFn_eq_map, List.map_map]
    rfl
  have hall : (dataSymbols (List.ofFn G.data)).filter (fun s => s.base g = G.base) =
      dataSymbols (List.ofFn G.data) := by
    rw [List.filter_eq_self, hsymbols]
    intro s hs
    obtain ⟨i, -, rfl⟩ := List.mem_map.1 hs
    exact decide_eq_true (AlignedGroup.base_symbol i)
  have hentry := ((entry_run_data g (dataSymbols (List.ofFn G.data)) dataSymbols_isFec).2 G.base).1
  have hholds := (AlignedGroup.holds_nil (G := G) (f := {})).foldl (List.finRange g)
  have hdata : List.ofFn G.data = (List.finRange g).filterMap fun i => some (G.data i) := by
    rw [List.ofFn_eq_map, List.filterMap_eq_map']
  rw [hall, hsymbols] at hentry
  rw [filedUnder, hsymbols, hentry, Group.present, hdata]
  refine List.filterMap_congr fun i _ => ?_
  rw [hholds.pkts_eq, if_pos]
  rw [List.nil_append]
  exact List.mem_map_of_mem (List.mem_finRange i)

/-! ## One group -/

section LastGroup

variable {start : UInt16} {sent : List RtpPacket}

/-- For the last `g` packets of a stream, encoder and decoder agree exactly when the first of their
numbers is a multiple of `g` and the last does not wrap. -/
theorem agree_iff (hg : 0 < g) (hcons : Consecutive start sent) (hlen : g ≤ sent.length)
    (e : XorFecEncoder) :
    Agree g (lastGroup g sent) (e.fecPacket (lastGroup g sent)) ↔
      g ∣ (lastBase g start sent).toNat ∧ (lastBase g start sent).toNat + g ≤ 2 ^ 16 := by
  rw [Agree, base_fecPacket, firstSeq_lastGroup hcons hlen hg]
  constructor
  · intro hperm
    have hrest := (entry_run_data g (dataSymbols (lastGroup g sent)) dataSymbols_isFec).1
    have hlength : (filedUnder g (lastGroup g sent) (lastBase g start sent)).length =
        (List.finRange g).length := by
      rw [hperm.length_eq, lastGroup, List.length_drop, List.length_finRange]
      omega
    rw [filedUnder, Group.present, List.filterMap_length_eq_length] at hlength
    -- every slot is filled, the last one with the number `base + (g - 1)`
    have hlast := hlength ⟨g - 1, by omega⟩ (List.mem_finRange _)
    obtain ⟨pkt, hpkt⟩ := Option.isSome_iff_exists.1 hlast
    obtain ⟨hdvd, hseq⟩ := hrest.entry (lastBase g start sent) _ pkt hpkt
    have hlt := pkt.sequence.toNat_lt
    dsimp only at hseq
    exact ⟨hdvd, by omega⟩
  · -- the last group is aligned
    rintro ⟨hdvd, hfits⟩
    have hfiled := filedUnder_alignedGroup (alignedGroup hcons hlen hdvd hfits)
    change filedUnder g (List.ofFn (lastData hlen)) (lastBase g start sent) = _ at hfiled
    rw [ofFn_lastData] at hfiled
    rw [hfiled]
    exact List.Perm.of_eq (ofFn_lastData hlen)

end LastGroup

/-! ## Streams -/

/-- The encoder along a stream. -/
theorem partway_run (hg : 0 < g) (sent : List RtpPacket) :
    (run XorFecEncoder.next { groupSize := g } sent).groupSize = g ∧
      (run XorFecEncoder.next { groupSize := g } sent).Partway (openGroup g sent) := by
  induction sent using List.reverseRecOn with
  | nil =>
      rw [run_nil, openGroup, List.drop_nil]
      exact ⟨rfl, XorFecEncoder.partway_nil rfl hg⟩
  | append_singleton sent pkt ih =>
      rw [run_concat]
      refine ⟨(XorFecEncoder.feed_groupSize _ _).trans ih.1, ?_⟩
      exact (feed_stream ih.1 ih.2 pkt).1

/-- The FEC packet that the encoder sends with the last packet of a stream. -/
def emitted (g : ℕ) (sent : List RtpPacket) (pkt : RtpPacket) : Option RtpPacket :=
  ((run XorFecEncoder.next { groupSize := g } sent).feed pkt).2

/-- A FEC packet comes at the end of a group and is made of it. -/
theorem emitted_eq_some (hg : 0 < g) {sent : List RtpPacket} {pkt f : RtpPacket}
    (h : emitted g sent pkt = some f) :
    g ∣ (sent ++ [pkt]).length ∧
      ∃ e : XorFecEncoder, f = e.fecPacket (lastGroup g (sent ++ [pkt])) := by
  obtain ⟨hsize, hpart⟩ := partway_run hg sent
  rw [emitted, (feed_stream hsize hpart pkt).2] at h
  split_ifs at h with hdvd
  exact ⟨hdvd, _, (Option.some.inj h).symm⟩

theorem Consecutive.of_append {start : UInt16} {sent rest : List RtpPacket}
    (h : Consecutive start (sent ++ rest)) : Consecutive start sent := by
  intro i hi
  have hseq := h i (by rw [List.length_append]; omega)
  rwa [List.getElem_append_left hi] at hseq

/-- In a stream of consecutive numbers that starts at a multiple of the group size, and wraps in no
group unless the group size divides 2^16, every FEC packet is the XOR of the last `g` packets and
these are what the decoder files under its base. -/
theorem groups_agree (hg : 0 < g) {start : UInt16} {stream : List RtpPacket}
    (hcons : Consecutive start stream) (haligned : g ∣ start.toNat)
    (hwrap : g ∣ 2 ^ 16 ∨ start.toNat + stream.length / g * g ≤ 2 ^ 16)
    (sent rest : List RtpPacket) (pkt f : RtpPacket) (hsplit : stream = sent ++ pkt :: rest)
    (hf : emitted g sent pkt = some f) :
    f.payload = xorAll ((lastGroup g (sent ++ [pkt])).map RtpPacket.payload) ∧
      Agree g (lastGroup g (sent ++ [pkt])) f := by
  obtain ⟨hdvd, e, rfl⟩ := emitted_eq_some hg hf
  have hpos : 0 < (sent ++ [pkt]).length := by simp
  have hlen : g ≤ (sent ++ [pkt]).length := Nat.le_of_dvd hpos hdvd
  have hstream : stream = (sent ++ [pkt]) ++ rest := by simp [hsplit]
  have hprefix : Consecutive start (sent ++ [pkt]) := Consecutive.of_append (hstream ▸ hcons)
  refine ⟨rfl, (agree_iff hg hprefix hlen e).2 ?_⟩
  rcases hwrap with hdiv | hnowrap
  · exact aligned_lastBase hdiv haligned hdvd
  · -- the last group ends before the numbers wrap
    have hfloor : (sent ++ [pkt]).length ≤ stream.length / g * g := by
      rw [← Nat.div_mul_cancel hdvd, hstream]
      exact Nat.mul_le_mul_right g (Nat.div_le_div_right (by simp))
    have hbase : (lastBase g start (sent ++ [pkt])).toNat =
        start.toNat + ((sent ++ [pkt]).length - g) := by
      rw [lastBase, UInt16.toNat_add, UInt16.toNat_ofNat']
      omega
    rw [hbase]
    exact ⟨Nat.dvd_add haligned (Nat.dvd_sub hdvd (Nat.dvd_refl g)), by omega⟩

/-- `n` packets with the numbers from `start` on. -/
def countUp (start : UInt16) (n : ℕ) : List RtpPacket :=
  (List.range n).map fun i => .build 96 (start + UInt16.ofNat i) 0 1 [0x41]

/-- A stream that counts up has consecutive numbers. -/
theorem consecutive_countUp (start : UInt16) (n : ℕ) : Consecutive start (countUp start n) := by
  intro i h
  simp only [countUp, List.getElem_map, List.getElem_range, RtpPacket.build_sequence]

theorem groups_agree_fromZero :
    Agree 5 (lastGroup 5 (countUp 0 5)) (.build 127 0 0 0xFEC00000 [0x41]) :=
  (groups_agree (by decide : 0 < 5) (consecutive_countUp 0 5) (by decide) (Or.inr (by decide))
    (countUp 0 4) [] (.build 96 4 0 1 [0x41]) _ rfl (by decide)).2

/-- A stream that starts at 1: the FEC packet of its first five packets leads to an entry where none
of them is filed. -/
theorem groups_disagree_fromOne :
    ¬ ∀ sent rest pkt f, countUp 1 5 = sent ++ pkt :: rest → emitted 5 sent pkt = some f →
      Agree 5 (lastGroup 5 (sent ++ [pkt])) f := by
  intro h
  have hagree := h (countUp 1 4) [] (.build 96 5 0 1 [0x41]) (.build 127 0 1 0xFEC00000 [0x41]) rfl
    (by decide)
  exact absurd hagree (by decide)

end CppMeet.Weak.FecGroups
