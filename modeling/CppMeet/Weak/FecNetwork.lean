import CppMeet.Weak.FecGroups

/-!
# FEC over a network

A sender puts a stream of packets on the network, and behind every group its FEC packet. The network
loses, repeats and reorders; what arrives is fed to one decoder.

For each group the entry of the decoder holds what has arrived of it since its last recovery
(`Followed`). So the decoder never returns anything but a packet of the stream, padded
(`recovered_sound`), and it does return the packet that a group lacks once everything else of the
group has arrived; without repetitions it returns no packet twice (`recovers_over_network`).

The stream uses no number twice. On a longer one the decoder mixes groups that are 2^16 apart.
-/

set_option autoImplicit false

namespace CppMeet.Weak.FecNetwork

open CppMeet.Lib.PadXor CppMeet.Lib.Run CppMeet.Rtp.Packet CppMeet.Weak.Fec
open CppMeet.Weak.Fec.XorFecDecoder CppMeet.Weak.FecRecovery CppMeet.Weak.FecRecovery.AlignedGroup
open CppMeet.Weak.FecGroups CppMeet.Weak.FecStream

/-- The packets of the sender, each followed by the FEC packet of the group that it completes. -/
def transmitted (g : ℕ) (packets : List RtpPacket) : List Symbol :=
  trace XorFecEncoder.next
    (fun e pkt => ⟨pkt, false⟩ :: (e.feed pkt).2.toList.map (⟨·, true⟩)) { groupSize := g } packets

/-- What the decoder returns. -/
def recovered (g : ℕ) (arrivals : List Symbol) : List RtpPacket :=
  trace XorFecDecoder.next (fun d s => (d.feed s).2.toList) (.init g) arrivals

/-- Consecutive packets from a multiple of the group size on, each with a number of its own; no
group wraps unless the group size divides 2^16. -/
structure Stream (g : ℕ) where
  start : UInt16
  packets : List RtpPacket
  pos : 0 < g
  consecutive : Consecutive start packets
  aligned : g ∣ start.toNat
  length_le : packets.length ≤ 2 ^ 16
  wraps : g ∣ 2 ^ 16 ∨ start.toNat + packets.length / g * g ≤ 2 ^ 16

namespace Stream

variable {g : ℕ} (S : Stream g)

/-- The packets of the stream have different numbers. -/
theorem sequence_inj {a b : Fin S.packets.length}
    (h : (S.packets.get a).sequence = (S.packets.get b).sequence) : a = b := by
  have hlen := S.length_le
  rw [List.get_eq_getElem, List.get_eq_getElem, S.consecutive a a.isLt, S.consecutive b b.isLt,
    UInt16.add_right_inj] at h
  have hnat := congrArg UInt16.toNat h
  rw [UInt16.toNat_ofNat', UInt16.toNat_ofNat'] at hnat
  exact Fin.ext (by omega)

/-- A packet of a complete group is one of the stream. -/
theorem index_lt (j : Fin (S.packets.length / g)) (i : Fin g) :
    j * g + i < S.packets.length := by
  have hle := Nat.div_mul_le_self S.packets.length g
  have hj : (j + 1 : ℕ) * g ≤ S.packets.length / g * g := Nat.mul_le_mul_right g j.isLt
  rw [Nat.add_mul, Nat.one_mul] at hj
  omega

theorem length_take (j : Fin (S.packets.length / g)) :
    (S.packets.take (j * g + g)).length = j * g + g := by
  have hlast := S.index_lt j ⟨g - 1, by have := S.pos; omega⟩
  have hpos := S.pos
  rw [List.length_take]
  dsimp only at hlast
  omega

/-- Every group begins at a multiple of the group size and does not cross the wrap. -/
theorem aligned_base (j : Fin (S.packets.length / g)) :
    g ∣ (S.start + UInt16.ofNat (j * g)).toNat ∧
      (S.start + UInt16.ofNat (j * g)).toNat + g ≤ 2 ^ 16 := by
  rcases S.wraps with hdvd | hfits
  · have hwhole : g ∣ (S.packets.take (j * g + g)).length := by
      rw [S.length_take]
      exact Nat.dvd_add (Nat.dvd_mul_left _ _) (Nat.dvd_refl g)
    have hlast := aligned_lastBase hdvd S.aligned hwhole
    rwa [lastBase, S.length_take, Nat.add_sub_cancel] at hlast
  · -- the groups end before the numbers wrap
    have hle : (j * g + g : ℕ) ≤ S.packets.length / g * g := by
      rw [← Nat.succ_mul]
      exact Nat.mul_le_mul_right g j.isLt
    have hpos := S.pos
    have hbase : (S.start + UInt16.ofNat (j * g)).toNat = S.start.toNat + j * g := by
      rw [UInt16.toNat_add, UInt16.toNat_ofNat']
      omega
    rw [hbase]
    exact ⟨Nat.dvd_add S.aligned (Nat.dvd_mul_left _ _), by omega⟩

/-- The groups of the stream. -/
def group (j : Fin (S.packets.length / g)) : AlignedGroup g where
  base := S.start + UInt16.ofNat (j * g)
  data i := S.packets.get ⟨j * g + i, S.index_lt j i⟩
  dvd := (S.aligned_base j).1
  fits := (S.aligned_base j).2
  sequence_eq i := by
    have hfits := (S.aligned_base j).2
    have hseq := S.consecutive (j * g + i) (S.index_lt j i)
    rw [List.get_eq_getElem, hseq, UInt16.ofNat_add, ← UInt16.add_assoc, UInt16.toNat_add,
      UInt16.toNat_ofNat']
    omega

/-- The FEC packet of a group. -/
def fec (j : Fin (S.packets.length / g)) : RtpPacket :=
  (run XorFecEncoder.next { groupSize := g } (S.packets.take (j * g + (g - 1)))).fecPacket
    (List.ofFn (S.group j).data)

/-- The group is the last one of the packets sent up to its end. -/
theorem ofFn_group (j : Fin (S.packets.length / g)) :
    List.ofFn (S.group j).data = lastGroup g (S.packets.take (j * g + g)) := by
  have hlen := S.length_take j
  apply List.ext_getElem
  · rw [List.length_ofFn, lastGroup, List.length_drop, hlen]
    omega
  · intro i h h'
    simp only [List.getElem_ofFn, lastGroup, List.getElem_drop, List.getElem_take, hlen,
      Nat.add_sub_cancel]
    rfl

theorem payload_fec (j : Fin (S.packets.length / g)) :
    (S.fec j).payload = xorAll (S.group j).payloads := rfl

/-- The FEC packet of a group is filed under the base of the group. -/
theorem base_fec (j : Fin (S.packets.length / g)) :
    Symbol.base g ⟨S.fec j, true⟩ = (S.group j).base := by
  have hsplit : Consecutive S.start
      (S.packets.take (j * g + g) ++ S.packets.drop (j * g + g)) := by
    rw [List.take_append_drop]
    exact S.consecutive
  have hcons := Consecutive.of_append hsplit
  have hlen : g ≤ (S.packets.take (j * g + g)).length := by rw [S.length_take]; omega
  rw [fec, base_fecPacket, ofFn_group, firstSeq_lastGroup hcons hlen S.pos, lastBase,
    S.length_take, Nat.add_sub_cancel]
  rfl

/-- The encoder answers the packet that completes a group with its FEC packet, and no other. -/
theorem feed_eq_some_iff {pre post : List RtpPacket} {pkt f : RtpPacket}
    (hsplit : S.packets = pre ++ pkt :: post) :
    ((run XorFecEncoder.next { groupSize := g } pre).feed pkt).2 = some f ↔
      ∃ j : Fin (S.packets.length / g), pre.length + 1 = j * g + g ∧ f = S.fec j := by
  obtain ⟨hsize, hpart⟩ := partway_run S.pos pre
  have hlen : (pre ++ [pkt]).length = pre.length + 1 := List.length_append
  have hpos := S.pos
  -- the FEC packet of a group is made of the packets up to its last one
  have hfec (j : Fin (S.packets.length / g)) (hj : pre.length + 1 = j * g + g) :
      (run XorFecEncoder.next { groupSize := g } pre).fecPacket (lastGroup g (pre ++ [pkt])) =
        S.fec j := by
    have hpre : S.packets.take (j * g + (g - 1)) = pre :=
      (congrArg (List.take _) hsplit).trans (List.take_left' (by omega))
    have hgroup : S.packets.take (j * g + g) = pre ++ [pkt] := by
      rw [List.append_cons] at hsplit
      exact (congrArg (List.take _) hsplit).trans (List.take_left' (by omega))
    rw [fec, ofFn_group, hpre, hgroup]
  rw [(feed_stream hsize hpart pkt).2, hlen]
  constructor
  · intro h
    split_ifs at h with hdvd
    obtain ⟨q, hq⟩ := hdvd
    obtain ⟨j, rfl⟩ : ∃ j, q = j + 1 := Nat.exists_eq_succ_of_ne_zero fun hzero => by
      rw [hzero, Nat.mul_zero] at hq
      omega
    have hlt : j < S.packets.length / g := by
      rw [← Nat.succ_le_iff, Nat.le_div_iff_mul_le hpos, Nat.mul_comm, Nat.succ_eq_add_one, ← hq,
        hsplit]
      simp
    have hj : pre.length + 1 = j * g + g := by rw [hq, Nat.mul_add, Nat.mul_one, Nat.mul_comm]
    exact ⟨⟨j, hlt⟩, hj, (Option.some.inj h).symm.trans (hfec ⟨j, hlt⟩ hj)⟩
  · rintro ⟨j, hj, rfl⟩
    rw [if_pos (by rw [hj]; exact Nat.dvd_add (Nat.dvd_mul_left _ _) (Nat.dvd_refl g)), hfec j hj]

/-- What is on the network. -/
theorem mem_transmitted {s : Symbol} :
    s ∈ transmitted g S.packets ↔
      (∃ pkt ∈ S.packets, s = ⟨pkt, false⟩) ∨ ∃ j, s = ⟨S.fec j, true⟩ := by
  rw [transmitted, mem_trace_iff]
  constructor
  · rintro ⟨pre, pkt, post, hsplit, hs⟩
    rcases List.mem_cons.1 hs with rfl | hs
    · exact Or.inl ⟨pkt, hsplit ▸ by simp, rfl⟩
    · obtain ⟨f, hf, rfl⟩ := List.mem_map.1 hs
      obtain ⟨j, -, rfl⟩ := (S.feed_eq_some_iff hsplit).1 (Option.mem_toList.1 hf)
      exact Or.inr ⟨j, rfl⟩
  · rintro (⟨pkt, hpkt, rfl⟩ | ⟨j, rfl⟩)
    · obtain ⟨pre, post, hsplit⟩ := List.append_of_mem hpkt
      exact ⟨pre, pkt, post, hsplit, List.mem_cons_self⟩
    · -- the last packet of the group
      have hpos := S.pos
      have hlt := S.index_lt j ⟨g - 1, by omega⟩
      have hsplit : S.packets = S.packets.take (j * g + (g - 1)) ++
          S.packets[j * g + (g - 1)] :: S.packets.drop (j * g + (g - 1) + 1) := by
        rw [← List.drop_eq_getElem_cons, List.take_append_drop]
      refine ⟨_, _, _, hsplit, List.mem_cons_of_mem _ (List.mem_map_of_mem ?_)⟩
      rw [Option.mem_toList]
      refine (S.feed_eq_some_iff hsplit).2 ⟨j, ?_, rfl⟩
      rw [List.length_take]
      dsimp only at hlt
      omega

/-- Of what is on the network, the packets of a group are those that lead to its base. -/
theorem eq_of_base {s : Symbol} (hs : s ∈ transmitted g S.packets)
    {j : Fin (S.packets.length / g)} (hbase : s.base g = (S.group j).base) :
    s = ⟨S.fec j, true⟩ ∨ ∃ i, s = (S.group j).symbol i := by
  rcases S.mem_transmitted.1 hs with ⟨pkt, hpkt, rfl⟩ | ⟨j', rfl⟩
  · right
    obtain ⟨n, rfl⟩ := List.mem_iff_get.1 hpkt
    -- its number is one of the group
    have hnat := congrArg UInt16.toNat ((base_data rfl).symm.trans hbase)
    rw [dataBase_toNat] at hnat
    have hdivmod := Nat.div_add_mod' (S.packets.get n).sequence.toNat g
    let i : Fin g := ⟨_, Nat.mod_lt (S.packets.get n).sequence.toNat S.pos⟩
    have hseq : ((S.group j).data i).sequence.toNat = (S.packets.get n).sequence.toNat := by
      rw [(S.group j).sequence_eq, ← hnat]
      exact hdivmod
    refine ⟨i, ?_⟩
    rw [S.sequence_inj (UInt16.toNat_inj.1 hseq.symm)]
    rfl
  · -- an FEC packet carries the number of the first packet of its group
    rw [base_fec] at hbase
    have hseq : ((S.group j').data ⟨0, S.pos⟩).sequence =
        ((S.group j).data ⟨0, S.pos⟩).sequence := by
      rw [← UInt16.toNat_inj, (S.group j').sequence_eq, (S.group j).sequence_eq, hbase]
    have hindex := congrArg Fin.val (S.sequence_inj hseq)
    left
    have hj : (j' : ℕ) = j := Nat.eq_of_mul_eq_mul_right S.pos hindex
    rw [Fin.ext hj]

end Stream

/-! ## One group -/

variable {g : ℕ}

instance (G : AlignedGroup g) (seq : UInt16) : Decidable (G.Has seq) :=
  inferInstanceAs (Decidable (_ ∧ _))

/-- The returned packets that have a number of the group. -/
def backOf (G : AlignedGroup g) (arrivals : List Symbol) : List RtpPacket :=
  (recovered g arrivals).filter fun r => G.Has r.sequence

/-- What is known of a group after some arrivals: its entry holds the last of them, and before these
there was a recovery or nothing. -/
structure Followed (G : AlignedGroup g) (f : RtpPacket) (arrivals : List Symbol) : Prop where
  entry : ∃ before fed, ofGroup G arrivals = before ++ fed ∧
    Holds G f ((run next (init g) arrivals).entry G.base) fed ∧
    (backOf G arrivals = [] ∧ before = [] ∨ backOf G arrivals ≠ [] ∧ ⟨f, true⟩ ∈ before)
  sound : ∀ r ∈ backOf G arrivals, ∃ k, r.sequence = (G.data k).sequence ∧
    r.payload = G.padded k ∧ ∀ i, i ≠ k → G.symbol i ∈ arrivals
  once : arrivals.Nodup → (backOf G arrivals).length ≤ 1

variable {G : AlignedGroup g} {f : RtpPacket} {arrivals : List Symbol} {s : Symbol}

/-- One more arrival recovers what the decoder returns for it. -/
theorem recovered_concat (arrivals : List Symbol) (s : Symbol) :
    recovered g (arrivals ++ [s]) =
      recovered g arrivals ++ ((run next (init g) arrivals).feed s).2.toList :=
  trace_concat _ _ _

theorem backOf_concat (G : AlignedGroup g) (arrivals : List Symbol) (s : Symbol) :
    backOf G (arrivals ++ [s]) =
      backOf G arrivals ++ (((run next (init g) arrivals).feed s).2.toList.filter
        fun r => G.Has r.sequence) := by
  rw [backOf, recovered_concat, List.filter_append, backOf]

theorem followed_nil : Followed G f [] where
  entry := ⟨[], [], rfl, holds_nil, Or.inl ⟨rfl, rfl⟩⟩
  sound _ hr := absurd hr List.not_mem_nil
  once _ := Nat.zero_le 1

/-- A packet of another group. -/
theorem Followed.other (h : Followed G f arrivals) (hs : s.base g ≠ G.base) :
    Followed G f (arrivals ++ [s]) := by
  have hrest := atRest_run (g := g) arrivals
  have hback : backOf G (arrivals ++ [s]) = backOf G arrivals := by
    have hnone : ((run next (init g) arrivals).feed s).2.toList.filter
        (fun r => G.Has r.sequence) = [] := by
      rw [List.filter_eq_nil_iff]
      intro r hr
      rw [decide_eq_true_eq]
      exact noneOf_of_base_ne hrest hs r (Option.mem_toList.1 hr)
    rw [backOf_concat, hnone, List.append_nil]
  have hgroup : ofGroup G (arrivals ++ [s]) = ofGroup G arrivals := by
    rw [ofGroup, List.filter_append, List.filter_cons_of_neg (by simpa using hs)]
    exact List.append_nil _
  refine ⟨?_, fun r hr => ?_, fun hnodup => ?_⟩
  · rw [hback, hgroup, run_concat, next, entry_feed_of_ne s hrest.quiet (Ne.symm hs)]
    exact h.entry
  · rw [hback] at hr
    obtain ⟨k, hseq, hpayload, hothers⟩ := h.sound r hr
    exact ⟨k, hseq, hpayload, fun i hi => List.mem_append_left _ (hothers i hi)⟩
  · rw [hback]
    exact h.once (List.nodup_append.1 hnodup).1

/-- The entry that a packet was recovered from is gone. -/
theorem entry_feed_recovered {d : XorFecDecoder g} (h : d.Quiet) {r : RtpPacket}
    (hfeed : (d.feed s).2 = some r) : (d.feed s).1.entry (s.base g) = {} := by
  rw [feed_result s h] at hfeed
  rw [XorFecDecoder.entry, groups_feed s h, if_pos rfl, hfeed, if_neg (Option.some_ne_none r)]
  rfl

/-- An entry that holds packets of the group is recovered when all but one of them are there. -/
theorem recover_of_holds {grp : Group g} {fed : List Symbol} (h : Holds G f grp fed)
    (hf : f.payload = xorAll G.payloads) {r : RtpPacket} (hrec : grp.recover G.base = some r) :
    ⟨f, true⟩ ∈ fed ∧ ∃ k, r.sequence = (G.data k).sequence ∧ r.payload = G.padded k ∧
      ∀ i, i ≠ k → G.symbol i ∈ fed := by
  obtain ⟨fec, k, hfec, hmissing, -⟩ := Group.recover_eq_some hrec
  rw [h.fec_eq] at hfec
  split_ifs at hfec with hmem
  have hothers (i : Fin g) (hi : i ≠ k) : G.symbol i ∈ fed := by
    by_contra hnot
    refine hi ((hmissing i).1 ?_)
    rw [h.pkts_eq, if_neg hnot]
  have hpkts (i : Fin g) : grp.pkts i = if i = k then none else some (G.data i) := by
    by_cases hi : i = k
    · rw [if_pos hi]
      exact (hmissing i).2 hi
    · rw [if_neg hi, h.pkts_eq, if_pos (hothers i hi)]
  obtain ⟨pkt, hpkt, hseq, hpayload⟩ := recover_padded (h.fec_eq.trans (if_pos hmem)) hpkts hf
  obtain rfl := Option.some.inj (hpkt.symm.trans hrec)
  exact ⟨hmem, k, hseq, hpayload, hothers⟩

/-- An entry that lacks one packet only, and has the FEC packet, is recovered. -/
theorem recover_ne_none {grp : Group g} {fed : List Symbol} (h : Holds G f grp fed) {k : Fin g}
    (hlost : G.symbol k ∉ fed) (hothers : G.symbols f k ⊆ fed) : grp.recover G.base ≠ none := by
  have hfec := h.fec_eq.trans (if_pos (hothers fec_mem_symbols))
  have hmissing (i : Fin g) : grp.pkts i = none ↔ i = k := by
    rw [h.pkts_eq]
    by_cases hi : i = k
    · rw [hi, if_neg hlost]
      exact iff_of_true rfl rfl
    · rw [if_pos (hothers (symbol_mem_symbols.2 hi))]
      exact iff_of_false (Option.some_ne_none _) hi
  rw [Group.recover_of_missing hfec hmissing]
  exact Option.some_ne_none _

theorem has_sequence (k : Fin g) : G.Has (G.data k).sequence := by
  rw [Has, G.sequence_eq]
  omega

/-- A packet of the group. -/
theorem Followed.own (h : Followed G f arrivals) (hf : f.payload = xorAll G.payloads)
    (hbase : s.base g = G.base) (hs : s = ⟨f, true⟩ ∨ ∃ i, s = G.symbol i) :
    Followed G f (arrivals ++ [s]) := by
  have hrest := atRest_run (g := g) arrivals
  obtain ⟨before, fed, hsplit, hholds, hbefore⟩ := h.entry
  have hgroup : ofGroup G (arrivals ++ [s]) = before ++ (fed ++ [s]) := by
    rw [ofGroup, List.filter_append, ← List.append_assoc, ← hsplit, ofGroup,
      List.filter_cons_of_pos (by simpa using hbase), List.filter_nil]
  have hfiled : Holds G f ((run next (init g) arrivals).filed s) (fed ++ [s]) := by
    rw [XorFecDecoder.filed, hbase]
    exact hholds.file hs
  have hfeed := feed_result s hrest.quiet
  rw [hbase] at hfeed
  cases hrec : ((run next (init g) arrivals).filed s).recover G.base with
  | none =>
      rw [hrec] at hfeed
      have hback : backOf G (arrivals ++ [s]) = backOf G arrivals := by
        rw [backOf_concat, hfeed]
        exact List.append_nil _
      refine ⟨⟨before, fed ++ [s], hgroup, ?_, ?_⟩, fun r hr => ?_, fun hnodup => ?_⟩
      · rw [run_concat, next, ← hbase, entry_feed_own s hrest.quiet hfeed]
        exact hfiled
      · rw [hback]
        exact hbefore
      · rw [hback] at hr
        obtain ⟨k, hseq, hpayload, hothers⟩ := h.sound r hr
        exact ⟨k, hseq, hpayload, fun i hi => List.mem_append_left _ (hothers i hi)⟩
      · rw [hback]
        exact h.once (List.nodup_append.1 hnodup).1
  | some r =>
      rw [hrec] at hfeed
      obtain ⟨hmem, k, hseq, hpayload, hothers⟩ := recover_of_holds hfiled hf hrec
      have hback : backOf G (arrivals ++ [s]) = backOf G arrivals ++ [r] := by
        have hkeep : [r].filter (fun r => G.Has r.sequence) = [r] := by
          apply List.filter_cons_of_pos
          rw [decide_eq_true_eq, hseq]
          exact has_sequence k
        rw [backOf_concat, hfeed, Option.toList_some, hkeep]
      have harrived : ∀ x ∈ fed ++ [s], x ∈ arrivals ++ [s] := by
        intro x hx
        have hx : x ∈ ofGroup G (arrivals ++ [s]) := hgroup ▸ List.mem_append_right _ hx
        exact (List.mem_filter.1 hx).1
      refine ⟨⟨before ++ (fed ++ [s]), [], by rw [hgroup, List.append_nil], ?_, Or.inr ⟨?_, ?_⟩⟩,
        fun r' hr' => ?_, fun hnodup => ?_⟩
      · rw [run_concat, next, ← hbase, entry_feed_recovered hrest.quiet hfeed]
        exact holds_nil
      · rw [hback]
        exact List.append_ne_nil_of_right_ne_nil _ (List.cons_ne_nil r [])
      · exact List.mem_append_right _ hmem
      · rw [hback] at hr'
        rcases List.mem_append.1 hr' with hold | hnew
        · obtain ⟨k', hseq', hpayload', hothers'⟩ := h.sound r' hold
          exact ⟨k', hseq', hpayload', fun i hi => List.mem_append_left _ (hothers' i hi)⟩
        · obtain rfl := List.mem_singleton.1 hnew
          exact ⟨k, hseq, hpayload, fun i hi => harrived _ (hothers i hi)⟩
      · -- the FEC packet has not been used before
        have hfresh : ⟨f, true⟩ ∉ before := by
          have hgroups : (before ++ (fed ++ [s])).Nodup := hgroup ▸ hnodup.filter _
          exact fun hold => List.disjoint_of_nodup_append hgroups hold hmem
        rcases hbefore with ⟨hnil, -⟩ | ⟨-, hold⟩
        · rw [hback, hnil]
          exact le_refl 1
        · exact absurd hold hfresh

/-! ## All groups -/

namespace Stream

variable (S : Stream g) {arrivals : List Symbol}

/-- The entry of every group follows its own arrivals. -/
theorem followed (h : arrivals ⊆ transmitted g S.packets) (j : Fin (S.packets.length / g)) :
    Followed (S.group j) (S.fec j) arrivals := by
  induction arrivals using List.reverseRecOn with
  | nil => exact followed_nil
  | append_singleton arrivals s ih =>
      have hbefore := ih fun x hx => h (List.mem_append_left _ hx)
      have hs : s ∈ transmitted g S.packets :=
        h (List.mem_append_right _ (List.mem_singleton_self s))
      by_cases hbase : s.base g = (S.group j).base
      · exact hbefore.own (S.payload_fec j) hbase (S.eq_of_base hs hbase)
      · exact hbefore.other hbase

/-- The FEC packet of an entry has just been filed or was there before. -/
theorem fec_filed {d : XorFecDecoder g} {s : Symbol} {f : RtpPacket}
    (hf : (d.filed s).fec = some f) : s = ⟨f, true⟩ ∨ (d.entry (s.base g)).fec = some f := by
  rw [XorFecDecoder.filed] at hf
  cases hfec : s.isFec with
  | true =>
      rw [Group.file_fec_of_isFec hfec] at hf
      left
      rw [← Option.some.inj hf, ← hfec]
  | false =>
      rw [Group.file_data hfec, Group.putData_fec] at hf
      exact Or.inr hf

/-- An FEC packet in an entry has arrived, and leads to the entry. -/
theorem fec_of_entry (arrivals : List Symbol) {base : UInt16} {f : RtpPacket}
    (hf : ((run next (init g) arrivals).entry base).fec = some f) :
    ⟨f, true⟩ ∈ arrivals ∧ Symbol.base g ⟨f, true⟩ = base := by
  induction arrivals using List.reverseRecOn with
  | nil =>
      have hnone : (init g).groups[base]? = none := by simp [init]
      rw [run_nil, XorFecDecoder.entry, hnone] at hf
      cases hf
  | append_singleton arrivals s ih =>
      have hquiet := (atRest_run (g := g) arrivals).quiet
      -- an FEC packet that was there before this arrival
      have hold (hf : ((run next (init g) arrivals).entry base).fec = some f) :=
        And.imp_left (List.mem_append_left [s]) (ih hf)
      rw [run_concat, next] at hf
      by_cases hbase : base = s.base g
      · subst hbase
        cases hfeed : ((run next (init g) arrivals).feed s).2 with
        | none =>
            rw [entry_feed_own s hquiet hfeed] at hf
            rcases fec_filed hf with hs | hbefore
            · exact ⟨List.mem_append_right _ (List.mem_singleton.2 hs.symm), by rw [← hs]⟩
            · exact hold hbefore
        | some r =>
            -- the entry is emptied with the recovery
            rw [entry_feed_recovered hquiet hfeed] at hf
            cases hf
      · rw [entry_feed_of_ne s hquiet hbase] at hf
        exact hold hf

/-- Whatever the decoder returns has a number of some group. -/
theorem exists_backOf (h : arrivals ⊆ transmitted g S.packets) {r : RtpPacket}
    (hr : r ∈ recovered g arrivals) : ∃ j, r ∈ backOf (S.group j) arrivals := by
  obtain ⟨pre, s, post, hsplit, hout⟩ := mem_trace_iff.1 hr
  have hrest := atRest_run (g := g) pre
  have hfeed := Option.mem_toList.1 hout
  rw [feed_result s hrest.quiet] at hfeed
  obtain ⟨fec, k, hfec, -, rfl⟩ := Group.recover_eq_some hfeed
  -- the FEC packet in the entry is that of a group
  obtain ⟨j, hj⟩ : ∃ j, s.base g = (S.group j).base := by
    have harrived : ⟨fec, true⟩ ∈ pre ++ [s] ∧ Symbol.base g ⟨fec, true⟩ = s.base g := by
      rcases fec_filed hfec with rfl | hbefore
      · exact ⟨List.mem_append_right _ (List.mem_singleton_self _), rfl⟩
      · exact And.imp_left (List.mem_append_left [s]) (fec_of_entry pre hbefore)
    have hsent := h (hsplit ▸ (List.append_cons pre s post ▸ List.mem_append_left post harrived.1))
    rcases S.mem_transmitted.1 hsent with ⟨pkt, -, hdata⟩ | ⟨j, hfecj⟩
    · exact absurd (congrArg Symbol.isFec hdata) Bool.noConfusion
    · exact ⟨j, by rw [← harrived.2, hfecj, base_fec]⟩
  refine ⟨j, List.mem_filter.2 ⟨hr, ?_⟩⟩
  have hfits := (S.group j).fits
  rw [decide_eq_true_eq, Has, Group.rebuild_sequence, hj, UInt16.toNat_ofNat']
  omega

/-- Of the packets of a stream and their FEC packets, whichever arrive, in whatever order and how
often: the decoder returns packets of the stream, padded to the longest of their group; it returns
the packet that does not arrive when all others of its group do; and without repetitions it returns
no number twice. -/
theorem recovers_over_network {g : ℕ} (S : Stream g) (arrivals : List Symbol)
    (h : arrivals ⊆ transmitted g S.packets) :
    (∀ r ∈ recovered g arrivals, ∃ j k, r.sequence = ((S.group j).data k).sequence ∧
      r.payload = (S.group j).padded k) ∧
    (∀ j k, (S.group j).symbol k ∉ arrivals → (S.group j).symbols (S.fec j) k ⊆ arrivals →
      ∃ r ∈ recovered g arrivals, r.sequence = ((S.group j).data k).sequence) ∧
    (arrivals.Nodup → ((recovered g arrivals).map RtpPacket.sequence).Nodup) := by
  refine ⟨fun r hr => ?_, fun j k hlost hothers => ?_, fun hnodup => ?_⟩
  · obtain ⟨j, hj⟩ := S.exists_backOf h hr
    obtain ⟨k, hseq, hpayload, -⟩ := (S.followed h j).sound r hj
    exact ⟨j, k, hseq, hpayload⟩
  · have hfollowed := S.followed h j
    by_cases hback : backOf (S.group j) arrivals = []
    · -- the entry would hold everything but the lost packet
      obtain ⟨before, fed, hsplit, hholds, ⟨-, rfl⟩ | ⟨hne, -⟩⟩ := hfollowed.entry
      · rw [List.nil_append] at hsplit
        rw [← hsplit] at hholds
        have hquiet := (atRest_run (g := g) arrivals).quiet.entry (S.group j).base
        refine absurd hquiet (recover_ne_none hholds (k := k) ?_ ?_)
        · exact fun hk => hlost (List.mem_filter.1 hk).1
        · intro x hx
          refine List.mem_filter.2 ⟨hothers hx, decide_eq_true ?_⟩
          rcases eq_of_mem_symbols hx with rfl | ⟨i, rfl⟩
          · exact S.base_fec j
          · exact base_symbol i
      · exact absurd hback hne
    · obtain ⟨r, hr⟩ := List.exists_mem_of_ne_nil _ hback
      obtain ⟨k', hseq, -, hthere⟩ := hfollowed.sound r hr
      have hk : k = k' := by
        by_contra hne
        exact hlost (hthere k hne)
      exact ⟨r, (List.mem_filter.1 hr).1, hk ▸ hseq⟩
  · rw [List.nodup_iff_count_le_one]
    intro seq
    by_cases hmem : seq ∈ (recovered g arrivals).map RtpPacket.sequence
    · obtain ⟨r, hr, rfl⟩ := List.mem_map.1 hmem
      obtain ⟨j, hj⟩ := S.exists_backOf h hr
      have hhas := of_decide_eq_true (List.mem_filter.1 hj).2
      refine le_trans ?_ ((S.followed h j).once hnodup)
      rw [backOf, ← List.countP_eq_length_filter, List.count, List.countP_map]
      apply List.countP_mono_left
      intro r' _ heq
      rw [Function.comp_apply, beq_iff_eq] at heq
      rw [decide_eq_true_eq, heq]
      exact hhas
    · rw [List.count_eq_zero_of_not_mem hmem]
      exact Nat.zero_le 1

end Stream

/-- A stream of four packets. -/
def fourPackets : Stream 2 where
  start := 2
  packets := countUp 2 4
  pos := by decide
  consecutive := consecutive_countUp 2 4
  aligned := by decide
  length_le := by decide
  wraps := Or.inl (by decide)

/-- Of the second group the FEC packet arrives, then the first packet; the second is lost. -/
def secondGroup : List Symbol :=
  [⟨fourPackets.fec ⟨1, by decide⟩, true⟩,
    (fourPackets.group ⟨1, by decide⟩).symbol ⟨0, Nat.two_pos⟩]

theorem recovers_over_network_secondGroup :
    ∃ r ∈ recovered 2 secondGroup, r.sequence = 5 ∧ r.payload = [0x41] := by
  have hsent : secondGroup ⊆ transmitted 2 fourPackets.packets := by decide
  obtain ⟨hsound, hback, -⟩ := Stream.recovers_over_network fourPackets secondGroup hsent
  obtain ⟨r, hr, hseq⟩ := hback ⟨1, by decide⟩ 1 (by decide) (by decide)
  obtain ⟨j, k, -, hpayload⟩ := hsound r hr
  have hpadded : ∀ j k, (fourPackets.group j).padded k = [0x41] := by decide
  exact ⟨r, hr, hseq, hpayload.trans (hpadded j k)⟩

end CppMeet.Weak.FecNetwork
