import CppMeet.Lib.Run
import CppMeet.Weak.Fec
import Mathlib.Data.Nat.Prime.Basic
import Mathlib.Tactic.NormNum.Prime

/-!
# Recovery of one lost packet

A group is aligned when its base is a multiple of the group size and its numbers do not wrap. When
all of its packets but one and its FEC packet reach a decoder that has no entry for the base, in
any order and mixed with any packets of other groups, the last of them recovers the lost packet and
no other call returns a packet of the group.

The entry of the group holds exactly what has been fed (`Holds`), so it is recoverable only when
everything is there; and the packets recovered from the other entries have numbers outside the
group (`recover_other`).
-/

set_option autoImplicit false

namespace CppMeet.Weak.FecRecovery

open CppMeet.Lib.PadXor CppMeet.Lib.Run CppMeet.Rtp.Packet CppMeet.Weak.Fec
open CppMeet.Weak.Fec.XorFecDecoder

/-- The data packets of a group whose base is a multiple of the group size. -/
structure AlignedGroup (g : ℕ) where
  base : UInt16
  data : Fin g → RtpPacket
  dvd : g ∣ base.toNat
  fits : base.toNat + g ≤ 2 ^ 16
  sequence_eq : ∀ i, (data i).sequence.toNat = base.toNat + i

namespace AlignedGroup

variable {g : ℕ} (G : AlignedGroup g) (f : RtpPacket) (k : Fin g)

/-- The number is one of the group. -/
def Has (seq : UInt16) : Prop := G.base.toNat ≤ seq.toNat ∧ seq.toNat < G.base.toNat + g

/-- The data packet of slot `i`, as it is fed. -/
def symbol (i : Fin g) : Symbol := ⟨G.data i, false⟩

/-- What arrives of the group when packet `k` is lost: the FEC packet and the other packets. -/
def symbols : List Symbol := ⟨f, true⟩ :: ((List.finRange g).erase k).map G.symbol

/-- The payloads of the group. -/
def payloads : List (List UInt8) := (List.ofFn G.data).map RtpPacket.payload

/-- The lost payload, padded to the longest one of the group. -/
def padded : List UInt8 :=
  (G.data k).payload ++ List.replicate (maxLen G.payloads - (G.data k).payload.length) 0

variable {G f k}

/-- The packets of a group are filed under its base. -/
theorem base_symbol (i : Fin g) : (G.symbol i).base g = G.base := by
  rw [base_data rfl]
  exact dataBase_of_eq_add G.dvd i.isLt (G.sequence_eq i)

theorem symbol_inj {i j : Fin g} (h : G.symbol i = G.symbol j) : i = j := by
  have hseq : (G.data i).sequence.toNat = (G.data j).sequence.toNat := by
    rw [show G.data i = G.data j from congrArg Symbol.pkt h]
  rw [G.sequence_eq, G.sequence_eq] at hseq
  exact Fin.ext (by omega)

theorem mem_erase_finRange {i : Fin g} : i ∈ (List.finRange g).erase k ↔ i ≠ k := by
  rw [(List.nodup_finRange g).mem_erase_iff]
  exact and_iff_left (List.mem_finRange i)

theorem fec_mem_symbols : (⟨f, true⟩ : Symbol) ∈ G.symbols f k := List.mem_cons_self

theorem symbol_mem_symbols {i : Fin g} : G.symbol i ∈ G.symbols f k ↔ i ≠ k := by
  rw [symbols, List.mem_cons, List.mem_map]
  constructor
  · rintro (h | ⟨j, hj, h⟩)
    · exact absurd (congrArg Symbol.isFec h) Bool.false_ne_true
    · exact symbol_inj h ▸ mem_erase_finRange.1 hj
  · exact fun h => Or.inr ⟨i, mem_erase_finRange.2 h, rfl⟩

/-- A symbol of the group is its FEC packet or one of its packets. -/
theorem eq_of_mem_symbols {s : Symbol} (h : s ∈ G.symbols f k) :
    s = ⟨f, true⟩ ∨ ∃ i, s = G.symbol i := by
  rw [symbols, List.mem_cons, List.mem_map] at h
  rcases h with h | ⟨i, -, rfl⟩
  · exact Or.inl h
  · exact Or.inr ⟨i, rfl⟩

theorem symbols_nodup : (G.symbols f k).Nodup := by
  rw [symbols, List.nodup_cons]
  constructor
  · intro h
    obtain ⟨i, -, hi⟩ := List.mem_map.1 h
    exact absurd (congrArg Symbol.isFec hi) Bool.false_ne_true
  · exact ((List.nodup_finRange g).erase k).map fun _ _ => symbol_inj

/-- The payloads of the group, the lost one first. -/
theorem payloads_perm :
    G.payloads.Perm ((G.data k).payload ::
      ((List.finRange g).erase k).map fun i => (G.data i).payload) := by
  have hmap := (List.perm_cons_erase (List.mem_finRange k)).map fun i => (G.data i).payload
  have hpayloads : G.payloads = (List.finRange g).map fun i => (G.data i).payload := by
    rw [payloads, List.ofFn_eq_map, List.map_map]
    rfl
  rwa [hpayloads]

/-! ## The entry of the group -/

/-- The entry holds exactly the packets of the list. -/
structure Holds (G : AlignedGroup g) (f : RtpPacket) (grp : Group g) (fed : List Symbol) :
    Prop where
  pkts_eq : ∀ i, grp.pkts i = if G.symbol i ∈ fed then some (G.data i) else none
  fec_eq : grp.fec = if ⟨f, true⟩ ∈ fed then some f else none

theorem holds_nil : Holds G f {} [] where
  pkts_eq _ := rfl
  fec_eq := rfl

theorem symbol_ne_fec (i : Fin g) : G.symbol i ≠ ⟨f, true⟩ :=
  fun h => absurd (congrArg Symbol.isFec h) Bool.false_ne_true

/-- The entry of a group holds what is filed into it. -/
theorem Holds.file {grp : Group g} {fed : List Symbol} (h : Holds G f grp fed) {s : Symbol}
    (hs : s = ⟨f, true⟩ ∨ ∃ j, s = G.symbol j) : Holds G f (grp.file s) (fed ++ [s]) := by
  rcases hs with rfl | ⟨j, rfl⟩
  · -- the FEC packet leaves the slots as they are
    rw [Group.file_fec_of_isFec rfl]
    refine ⟨fun i => ?_, by simp⟩
    have hmem : G.symbol i ∈ fed ↔ G.symbol i ∈ fed ++ [⟨f, true⟩] := by
      simp [symbol_ne_fec i]
    exact (h.pkts_eq i).trans (if_congr hmem rfl rfl)
  · -- data packet `j` is filed in slot `j`
    have hidx : (G.data j).sequence.toNat - (dataBase g (G.data j).sequence).toNat = j := by
      have hbase : dataBase g (G.data j).sequence = G.base := base_symbol j
      rw [hbase, G.sequence_eq]
      omega
    have hfile : grp.file (G.symbol j) = grp.putData j (G.data j) := by
      rw [Group.file_data rfl]
      exact congrArg (grp.putData · (G.data j)) hidx
    rw [hfile]
    refine ⟨fun i => ?_, ?_⟩
    · rw [Group.putData_pkts, h.pkts_eq i]
      by_cases hij : i = j
      · subst hij
        by_cases hmem : G.symbol i ∈ fed
        · simp [hmem]
        · simp [hmem]
      · have hne : G.symbol i ≠ G.symbol j := fun h => hij (symbol_inj h)
        simp [hne, Fin.val_inj, hij]
    · have hmem : (⟨f, true⟩ : Symbol) ∈ fed ↔ ⟨f, true⟩ ∈ fed ++ [G.symbol j] := by
        simp [(symbol_ne_fec j).symm]
      rw [Group.putData_fec]
      exact h.fec_eq.trans (if_congr hmem rfl rfl)

theorem Holds.foldl {grp : Group g} {fed : List Symbol} (h : Holds G f grp fed) (l : List (Fin g)) :
    Holds G f ((l.map G.symbol).foldl Group.file grp) (fed ++ l.map G.symbol) := by
  induction l generalizing grp fed with
  | nil =>
      rw [List.map_nil, List.append_nil]
      exact h
  | cons i l ih =>
      have hrest := ih (h.file (Or.inr ⟨i, rfl⟩))
      rwa [List.append_assoc] at hrest

/-- While something is still to come, the entry is not recoverable. -/
theorem Holds.recover_eq_none {grp : Group g} {fed rest : List Symbol} (h : Holds G f grp fed)
    (hperm : (fed ++ rest).Perm (G.symbols f k)) (hrest : rest ≠ []) :
    grp.recover G.base = none := by
  obtain ⟨s, rest, rfl⟩ := List.exists_cons_of_ne_nil hrest
  have hmem : s ∈ G.symbols f k := hperm.subset (by simp)
  have hnodup : (fed ++ s :: rest).Nodup := hperm.nodup_iff.2 symbols_nodup
  have hnew : s ∉ fed := fun hs => List.disjoint_of_nodup_append hnodup hs List.mem_cons_self
  rcases eq_of_mem_symbols hmem with rfl | ⟨j, rfl⟩
  · apply Group.recover_eq_none_of_fec
    rw [h.fec_eq, if_neg hnew]
  · -- the packet `k` is lost and the packet `j` has not arrived yet
    have hlost : G.symbol k ∉ fed := by
      intro hk
      exact symbol_mem_symbols.1 (hperm.subset (List.mem_append_left _ hk)) rfl
    apply Group.recover_eq_none_of_ne (symbol_mem_symbols.1 hmem)
    · rw [h.pkts_eq, if_neg hnew]
    · rw [h.pkts_eq, if_neg hlost]

/-- The packets of an entry that lacks the packet `k`, in slot order. -/
theorem present_eq {grp : Group g}
    (hpkts : ∀ i, grp.pkts i = if i = k then none else some (G.data i)) :
    grp.present = ((List.finRange g).erase k).map G.data := by
  rw [Group.present, (List.nodup_finRange g).erase_eq_filter, ← List.filterMap_eq_map,
    List.filterMap_filter]
  refine List.filterMap_congr fun i _ => ?_
  rw [hpkts]
  by_cases hi : i = k
  · simp [hi]
  · simp [hi]

/-- A group with one packet missing is repaired. -/
theorem recover_rebuild {grp : Group g} (hfec : grp.fec = some f)
    (hpkts : ∀ i, grp.pkts i = if i = k then none else some (G.data i)) :
    grp.recover G.base = some (grp.rebuild G.base f k) := by
  apply Group.recover_of_missing hfec
  intro i
  rw [hpkts]
  by_cases hi : i = k
  · simp [hi]
  · simp [hi]

/-- The repaired packet has the number of the missing one. -/
theorem rebuild_sequence_eq (grp : Group g) :
    (grp.rebuild G.base f k).sequence = (G.data k).sequence := by
  have hfits := G.fits
  rw [Group.rebuild_sequence, ← UInt16.toNat_inj, UInt16.toNat_ofNat', G.sequence_eq]
  exact Nat.mod_eq_of_lt (by omega)

/-- An entry with the FEC packet and all packets of the group but one gives the lost one back. -/
theorem recover_padded {grp : Group g} (hfec : grp.fec = some f)
    (hpkts : ∀ i, grp.pkts i = if i = k then none else some (G.data i))
    (hf : f.payload = xorAll G.payloads) :
    ∃ pkt, grp.recover G.base = some pkt ∧ pkt.sequence = (G.data k).sequence ∧
      pkt.payload = G.padded k := by
  refine ⟨_, recover_rebuild hfec hpkts, rebuild_sequence_eq grp, ?_⟩
  rw [Group.rebuild_payload, hf, present_eq hpkts, List.map_map, xorAll_perm payloads_perm]
  rw [padded, maxLen_perm payloads_perm]
  exact padXor_xorAll_cons _ _

/-- When everything is there, the entry lacks the lost packet only. -/
theorem Holds.complete {grp : Group g} {fed : List Symbol} (h : Holds G f grp fed)
    (hperm : fed.Perm (G.symbols f k)) :
    grp.fec = some f ∧ ∀ i, grp.pkts i = if i = k then none else some (G.data i) := by
  refine ⟨by rw [h.fec_eq, if_pos (hperm.mem_iff.2 fec_mem_symbols)], fun i => ?_⟩
  rw [h.pkts_eq]
  by_cases hi : i = k
  · rw [if_pos hi, if_neg fun hm => symbol_mem_symbols.1 (hperm.subset hm) hi]
  · rw [if_neg hi, if_pos (hperm.mem_iff.2 (symbol_mem_symbols.2 hi))]

/-! ## The other entries -/

/-- Multiples of `g` that differ are at least `g` apart. -/
theorem apart_of_dvd {a b : ℕ} (ha : g ∣ a) (hb : g ∣ b) (hne : a ≠ b) : a + g ≤ b ∨ b + g ≤ a := by
  rcases Nat.lt_or_gt_of_ne hne with hlt | hlt
  · left
    have hle := Nat.le_of_dvd (by omega) (Nat.dvd_sub hb ha)
    omega
  · right
    have hle := Nat.le_of_dvd (by omega) (Nat.dvd_sub ha hb)
    omega

/-- The numbers of an entry with a single empty slot `m` do not run over the end of the number
space. Only the last slot could, and then `base + g` would be the prime 65537. -/
theorem fits_of_others {base : ℕ} {m : Fin g} (hg : g ≠ 1) (hle : g ≤ 2 ^ 16)
    (hbase : base < 2 ^ 16) (hothers : ∀ i : Fin g, i ≠ m → g ∣ base ∧ base + i < 2 ^ 16) :
    base + m < 2 ^ 16 := by
  by_contra hover
  have hm := m.isLt
  have hlast : (m : ℕ) = g - 1 := by
    by_contra hne
    have h := (hothers ⟨g - 1, by omega⟩ fun h => hne (congrArg Fin.val h).symm).2
    dsimp only at h
    omega
  have hprev := hothers ⟨g - 2, by omega⟩ fun h => by
    have := congrArg Fin.val h
    dsimp only at this
    omega
  have hsum : base + g = 65537 := by
    have h := hprev.2
    dsimp only at h
    omega
  have hdvd : g ∣ 65537 := hsum ▸ Nat.dvd_add hprev.1 (Nat.dvd_refl g)
  rcases (Nat.dvd_prime (by norm_num)).1 hdvd with h | h
  · exact hg h
  · omega

theorem exists_other_slot (hg : g ≠ 1) (m : Fin g) : ∃ i : Fin g, i ≠ m := by
  have hm := m.isLt
  by_cases hzero : (m : ℕ) = 0
  · exact ⟨⟨1, by omega⟩, fun h => by simp [← h] at hzero⟩
  · exact ⟨⟨0, by omega⟩, fun h => by simp [← h] at hzero⟩

/-- A packet recovered from another entry is not one of the group. -/
theorem recover_other {grp : Group g} {base : UInt16} (hfiled : grp.WellFiled base)
    (hbase : base ≠ G.base) {pkt : RtpPacket} (hrec : grp.recover base = some pkt) :
    ¬ G.Has pkt.sequence := by
  obtain ⟨fec, m, -, hmissing, rfl⟩ := Group.recover_eq_some hrec
  have hne : base.toNat ≠ G.base.toNat := fun h => hbase (UInt16.toNat_inj.1 h)
  have hlt := base.toNat_lt
  have hfits := G.fits
  have hm := m.isLt
  -- every slot but the empty one holds a packet, whose number is a machine word
  have hfilled (i : Fin g) (hi : i ≠ m) : g ∣ base.toNat ∧ base.toNat + i < 2 ^ 16 := by
    obtain ⟨p, hp⟩ := Option.ne_none_iff_exists'.1 fun h => hi ((hmissing i).1 h)
    obtain ⟨hdvd, hseq⟩ := hfiled i p hp
    exact ⟨hdvd, hseq ▸ p.sequence.toNat_lt⟩
  rw [Has, Group.rebuild_sequence, UInt16.toNat_ofNat']
  by_cases hone : g = 1
  · -- a group of one packet
    subst hone
    rw [Nat.mod_eq_of_lt (by omega)]
    omega
  · -- another slot is filled, so the base of the entry is a multiple of `g` as well
    obtain ⟨i, hi⟩ := exists_other_slot hone m
    rw [Nat.mod_eq_of_lt (fits_of_others hone (by omega) hlt hfilled)]
    rcases apart_of_dvd (hfilled i hi).1 G.dvd hne with h | h
    · omega
    · omega

/-! ## Runs -/

/-- The call does not return a packet of the group. -/
def NoneOf (G : AlignedGroup g) (d : XorFecDecoder g) (s : Symbol) : Prop :=
  ∀ pkt, (d.feed s).2 = some pkt → ¬ G.Has pkt.sequence

/-- The packets of the list that are filed under the base of the group. -/
def ofGroup (G : AlignedGroup g) (l : List Symbol) : List Symbol :=
  l.filter fun s => s.base g = G.base

/-- A packet of another group returns none of this one. -/
theorem noneOf_of_base_ne {d : XorFecDecoder g} (hd : d.AtRest) {s : Symbol}
    (hs : s.base g ≠ G.base) : NoneOf G d s := by
  intro pkt hpkt
  rw [feed_result s hd.quiet] at hpkt
  exact recover_other (hd.entry (s.base g)).file hs hpkt

/-- Packets of other groups never make a call return a packet of the group. -/
theorem along_noneOf {d : XorFecDecoder g} (hd : d.AtRest) {l : List Symbol}
    (hl : ∀ s ∈ l, s.base g ≠ G.base) : Along next (NoneOf G) d l := by
  induction l generalizing d with
  | nil => exact along_nil d
  | cons s l ih =>
      refine ⟨noneOf_of_base_ne hd (hl s List.mem_cons_self), ?_⟩
      exact ih (hd.feed s) fun s' hs' => hl s' (List.mem_cons_of_mem s hs')

/-- While something of the group is still to come, no call returns a packet of it, and its entry
holds what has been fed. -/
theorem holds_run {d : XorFecDecoder g} (hd : d.AtRest) {fed rest : List Symbol}
    (hentry : Holds G f (d.entry G.base) fed) (hrest : rest ≠ []) (l : List Symbol)
    (hperm : (fed ++ (ofGroup G l ++ rest)).Perm (G.symbols f k)) :
    Along next (NoneOf G) d l ∧ (run next d l).AtRest ∧
      Holds G f ((run next d l).entry G.base) (fed ++ ofGroup G l) := by
  induction l generalizing d fed with
  | nil =>
      refine ⟨along_nil d, hd, ?_⟩
      rw [ofGroup, List.filter_nil, List.append_nil]
      exact hentry
  | cons s l ih =>
      rw [along_cons, run_cons]
      by_cases hs : s.base g = G.base
      · -- a packet of the group is filed with what has been fed
        have hsplit : ofGroup G (s :: l) = s :: ofGroup G l := by simp [ofGroup, hs]
        rw [hsplit] at hperm ⊢
        have hmem : s ∈ G.symbols f k := hperm.subset (by simp)
        have hfiled : Holds G f (d.filed s) (fed ++ [s]) := by
          rw [XorFecDecoder.filed, hs]
          exact hentry.file (eq_of_mem_symbols hmem)
        have hperm' : (fed ++ [s] ++ (ofGroup G l ++ rest)).Perm (G.symbols f k) := by
          rwa [List.append_assoc]
        have hnone : (d.feed s).2 = none := by
          rw [feed_result s hd.quiet, hs]
          exact hfiled.recover_eq_none hperm' (List.append_ne_nil_of_right_ne_nil _ hrest)
        have hnext : Holds G f ((next d s).entry G.base) (fed ++ [s]) := by
          rw [← hs, next, entry_feed_own s hd.quiet hnone]
          exact hfiled
        obtain ⟨halong, hrun, hholds⟩ := ih (hd.feed s) hnext hperm'
        refine ⟨⟨fun pkt hpkt => ?_, halong⟩, hrun, ?_⟩
        · rw [hnone] at hpkt
          cases hpkt
        · rwa [List.append_assoc] at hholds
      · -- a packet of another group leaves the entry alone
        have hsplit : ofGroup G (s :: l) = ofGroup G l := by simp [ofGroup, hs]
        rw [hsplit] at hperm ⊢
        have hnext : Holds G f ((next d s).entry G.base) fed := by
          rw [next, entry_feed_of_ne s hd.quiet (Ne.symm hs)]
          exact hentry
        obtain ⟨halong, hrun, hholds⟩ := ih (hd.feed s) hnext hperm
        exact ⟨⟨noneOf_of_base_ne hd hs, halong⟩, hrun, hholds⟩

/-- Every state that a decoder reaches is at rest. -/
theorem atRest_run (history : List Symbol) : (run next (init g) history).AtRest := by
  refine inv_run (P := fun _ _ => True) (I := AtRest) ?_ (atRest_init g)
    (along_of_forall (fun _ _ => trivial) _ _)
  exact fun d s hd _ => hd.feed s

/-- Whatever else is fed before and in between, the last packet of the group is answered with what
an entry that lacks the lost packet only recovers. -/
theorem feed_last {history before : List Symbol} {last : Symbol}
    (hnew : (run next (init g) history).groups[G.base]? = none) (hlast : last.base g = G.base)
    (hperm : (ofGroup G before ++ [last]).Perm (G.symbols f k)) :
    Along next (NoneOf G) (run next (init g) history) before ∧
      ∃ grp : Group g, ((run next (init g) (history ++ before)).feed last).2 = grp.recover G.base ∧
        grp.fec = some f ∧ ∀ i, grp.pkts i = if i = k then none else some (G.data i) := by
  have hentry : Holds G f ((run next (init g) history).entry G.base) [] := by
    rw [XorFecDecoder.entry, hnew]
    exact holds_nil
  obtain ⟨halong, hrest, hholds⟩ :=
    holds_run (atRest_run history) hentry (List.cons_ne_nil last []) before hperm
  rw [List.nil_append, ← run_append] at hholds
  rw [← run_append] at hrest
  -- with the last packet the entry holds everything but the lost packet
  have hfiled : Holds G f ((run next (init g) (history ++ before)).filed last)
      (ofGroup G before ++ [last]) := by
    rw [XorFecDecoder.filed, hlast]
    exact hholds.file (eq_of_mem_symbols (hperm.subset (by simp)))
  refine ⟨halong, _, ?_, hfiled.complete hperm⟩
  rw [feed_result last hrest.quiet, hlast]

end AlignedGroup

open AlignedGroup

/-- An encoder at a group boundary answers the last packet of a group with its FEC packet. -/
theorem encode_group {g : ℕ} (hg : 0 < g) (G : AlignedGroup g) {e : XorFecEncoder}
    (hsize : e.groupSize = g) (hcount : e.count = 0) :
    (e.feedAll (List.ofFn G.data)).2 =
      List.replicate (g - 1) none ++ [some (e.fecPacket (List.ofFn G.data))] := by
  have hne : List.ofFn G.data ≠ [] := by
    intro h
    have hlen := congrArg List.length h
    rw [List.length_ofFn, List.length_nil] at hlen
    omega
  have hencode := XorFecEncoder.feedAll_group hcount hne (by rw [List.length_ofFn, hsize])
  rwa [hsize] at hencode

/-- One lost packet of an aligned group is recovered by the last of the other packets of the group,
from any reachable decoder that has no entry for it, in any order and between any packets of other
groups. -/
theorem recovers_lost_packet {g : ℕ} (hg : 0 < g) (G : AlignedGroup g) (e : XorFecEncoder)
    (hsize : e.groupSize = g) (hcount : e.count = 0) :
    ∃ f, (e.feedAll (List.ofFn G.data)).2 = List.replicate (g - 1) none ++ [some f] ∧
      ∀ (k : Fin g) (history before after : List Symbol) (last : Symbol),
        (run next (init g) history).groups[G.base]? = none →
        last.base g = G.base →
        (ofGroup G before ++ [last]).Perm (G.symbols f k) →
        (∀ s ∈ after, s.base g ≠ G.base) →
        Along next (NoneOf G) (run next (init g) history) before ∧
        (∃ pkt, ((run next (init g) (history ++ before)).feed last).2 = some pkt ∧
          pkt.sequence = (G.data k).sequence ∧ pkt.payload = G.padded k) ∧
        Along next (NoneOf G) (run next (init g) (history ++ before ++ [last])) after := by
  refine ⟨_, encode_group hg G hsize hcount, fun k history before after last hnew hlast hperm
    hafter => ?_⟩
  obtain ⟨halong, grp, hfeed, hfec, hpkts⟩ := feed_last hnew hlast hperm
  refine ⟨halong, ?_, along_noneOf (atRest_run _) hafter⟩
  rw [hfeed]
  exact recover_padded hfec hpkts rfl

/-- Two packets with payloads of lengths 1 and 2. -/
def twoPackets : AlignedGroup 2 where
  base := 0
  data i := .build 96 (UInt16.ofNat i) 0 1 (if i = 0 then [1] else [2, 3])
  dvd := by decide
  fits := by decide
  sequence_eq := by decide

/-- The second packet is lost and the FEC packet brings it back. -/
theorem recovers_lost_packet_twoPackets :
    ∃ f pkt, (XorFecEncoder.feedAll { groupSize := 2 } (List.ofFn twoPackets.data)).2 =
        [none, some f] ∧
      ((run next (init 2) [twoPackets.symbol 0]).feed ⟨f, true⟩).2 = some pkt ∧
      pkt.payload = [2, 3] := by
  obtain ⟨f, hencode, hrecover⟩ := recovers_lost_packet (by decide : 0 < 2) twoPackets
    { groupSize := 2 } rfl rfl
  have hfec : (XorFecEncoder.feedAll { groupSize := 2 } (List.ofFn twoPackets.data)).2 =
      [none, some (.build 127 0 0 0xFEC00000 [3, 3])] := by decide
  obtain rfl : f = .build 127 0 0 0xFEC00000 [3, 3] := by
    rw [hfec] at hencode
    simpa using hencode.symm
  obtain ⟨-, ⟨pkt, hpkt, -, hpayload⟩, -⟩ := hrecover 1 [] [twoPackets.symbol 0] []
    ⟨.build 127 0 0 0xFEC00000 [3, 3], true⟩ rfl (by decide) (by decide) (by simp)
  exact ⟨_, pkt, hencode, hpkt, hpayload⟩

end CppMeet.Weak.FecRecovery
