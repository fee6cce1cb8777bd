import CppMeet.Lib.PadXor
import CppMeet.Lib.SortedMap
import CppMeet.Rtp.Packet
import Mathlib.Data.List.FinRange
import Mathlib.Logic.Function.Basic

/-!
# XOR-FEC

`XorFecEncoder` XORs the payloads of `groupSize` packets into one FEC packet, which carries the
sequence number of the first of them in its timestamp. `XorFecDecoder` keeps a `Group` for every
base sequence number; it files a data packet under its sequence number rounded down to a multiple
of the group size and an FEC packet under its timestamp, and gives back the missing packet of the
first group that lacks exactly one.

The encoder is described by `Partway`: the packets of the group that is being collected. A decoder
is `Quiet` when no group is recoverable; then a call can only recover the group of its own packet
(`feed_eq`), and the decoder is quiet again after it (`Quiet.feed`).
-/

set_option autoImplicit false

namespace CppMeet.Weak.Fec

open CppMeet.Lib.PadXor CppMeet.Lib.SortedMap CppMeet.Rtp.Packet

/-! ## The encoder -/

/-- The packets of a group taken in so far, as their number and their exclusive or. -/
structure XorFecEncoder where
  groupSize : ℕ
  count : ℕ := 0
  xorBuf : List UInt8 := []
  baseSeq : UInt16 := 0
  fecSsrc : UInt32 := 0xFEC00000
  fecSeq : UInt16 := 0

namespace XorFecEncoder

/-- The packet at a group boundary starts a new buffer, the others are XORed into it. -/
def absorb (e : XorFecEncoder) (pkt : RtpPacket) : XorFecEncoder :=
  if e.count = 0 then
    { e with baseSeq := pkt.sequence, xorBuf := pkt.payload, count := e.count + 1 }
  else { e with xorBuf := padXor e.xorBuf pkt.payload, count := e.count + 1 }

/-- A packet is taken in; the last one of a group gives the FEC packet, and the next group
begins. -/
def feed (e : XorFecEncoder) (pkt : RtpPacket) : XorFecEncoder × Option RtpPacket :=
  let e := e.absorb pkt
  if e.count = e.groupSize then
    -- PT 127; the timestamp carries the base sequence number
    ({ e with count := 0, xorBuf := [], fecSeq := e.fecSeq + 1 },
      some (.build 127 e.fecSeq e.baseSeq.toUInt32 e.fecSsrc e.xorBuf))
  else (e, none)

/-- The encoder after a call. -/
def next (e : XorFecEncoder) (pkt : RtpPacket) : XorFecEncoder := (e.feed pkt).1

/-- The encoder after the packets of the list, and what each call returned. -/
def feedAll (e : XorFecEncoder) : List RtpPacket → XorFecEncoder × List (Option RtpPacket)
  | [] => (e, [])
  | pkt :: pkts =>
      let (e', out) := e.feed pkt
      let (e'', outs) := e'.feedAll pkts
      (e'', out :: outs)

/-- The sequence number of the first packet. -/
def firstSeq (pkts : List RtpPacket) : UInt16 := (pkts.head?.map RtpPacket.sequence).getD 0

/-- The FEC packet of a group, sent by the encoder `e`. -/
def fecPacket (e : XorFecEncoder) (pkts : List RtpPacket) : RtpPacket :=
  .build 127 e.fecSeq (firstSeq pkts).toUInt32 e.fecSsrc (xorAll (pkts.map RtpPacket.payload))

/-- The encoder has collected the packets `pkts` of the current group. -/
structure Partway (e : XorFecEncoder) (pkts : List RtpPacket) : Prop where
  count_eq : e.count = pkts.length
  length_lt : pkts.length < e.groupSize
  xorBuf_eq : pkts ≠ [] → e.xorBuf = xorAll (pkts.map RtpPacket.payload)
  baseSeq_eq : pkts ≠ [] → e.baseSeq = firstSeq pkts

variable {e : XorFecEncoder} {pkts : List RtpPacket}

theorem partway_nil (hcount : e.count = 0) (hpos : 0 < e.groupSize) : Partway e [] where
  count_eq := hcount
  length_lt := hpos
  xorBuf_eq h := absurd rfl h
  baseSeq_eq h := absurd rfl h

/-- What a call does to the buffer: the packet joins the group. -/
theorem Partway.absorb (h : Partway e pkts) (pkt : RtpPacket) :
    e.absorb pkt =
      { e with
        count := (pkts ++ [pkt]).length
        xorBuf := xorAll ((pkts ++ [pkt]).map RtpPacket.payload)
        baseSeq := firstSeq (pkts ++ [pkt]) } := by
  cases pkts with
  | nil =>
      have hcount : e.count = 0 := h.count_eq
      rw [XorFecEncoder.absorb, if_pos hcount, hcount]
      rfl
  | cons p ps =>
      have hcount : e.count ≠ 0 := by rw [h.count_eq]; exact Nat.succ_ne_zero _
      have hne : p :: ps ≠ [] := List.cons_ne_nil p ps
      rw [XorFecEncoder.absorb, if_neg hcount, h.count_eq, h.xorBuf_eq hne, h.baseSeq_eq hne]
      simp only [List.map_append, xorAll, List.foldl_append, List.length_append, List.map_cons,
        List.map_nil, List.foldl_cons, List.foldl_nil, List.length_cons, List.length_nil]
      rfl

/-- A packet inside a group produces nothing. -/
theorem Partway.feed_inside (h : Partway e pkts) (pkt : RtpPacket)
    (hlt : pkts.length + 1 < e.groupSize) :
    e.feed pkt = (e.absorb pkt, none) ∧ Partway (e.absorb pkt) (pkts ++ [pkt]) := by
  have hlen : (pkts ++ [pkt]).length = pkts.length + 1 := List.length_append
  rw [XorFecEncoder.feed, h.absorb pkt]
  refine ⟨if_neg (by dsimp only; omega), ⟨rfl, ?_, fun _ => rfl, fun _ => rfl⟩⟩
  rw [hlen]
  exact hlt

/-- The call that completes the group returns its FEC packet. -/
theorem Partway.feed_last (h : Partway e pkts) (pkt : RtpPacket)
    (hlast : pkts.length + 1 = e.groupSize) :
    (e.feed pkt).2 = some (e.fecPacket (pkts ++ [pkt])) ∧ Partway (e.feed pkt).1 [] := by
  have hlen : (pkts ++ [pkt]).length = e.groupSize := List.length_append.trans hlast
  rw [XorFecEncoder.feed, h.absorb pkt]
  dsimp only
  rw [if_pos hlen]
  exact ⟨rfl, partway_nil rfl (by dsimp only; omega)⟩

theorem feed_groupSize (e : XorFecEncoder) (pkt : RtpPacket) :
    (e.feed pkt).1.groupSize = e.groupSize := by
  have habsorb : (e.absorb pkt).groupSize = e.groupSize := by
    unfold XorFecEncoder.absorb
    split_ifs <;> rfl
  unfold XorFecEncoder.feed
  dsimp only
  split_ifs
  · exact habsorb
  · exact habsorb

/-- A whole group: every call but the last returns nothing, the last one the FEC packet. -/
theorem Partway.feedAll (h : Partway e pkts) (rest : List RtpPacket) (pkt : RtpPacket)
    (hlen : pkts.length + (rest.length + 1) = e.groupSize) :
    (e.feedAll (rest ++ [pkt])).2 =
      List.replicate rest.length none ++ [some (e.fecPacket (pkts ++ (rest ++ [pkt])))] := by
  induction rest generalizing e pkts with
  | nil =>
      rw [List.nil_append, XorFecEncoder.feedAll]
      simp only [(h.feed_last pkt hlen).1]
      rfl
  | cons p rest ih =>
      rw [List.length_cons] at hlen
      obtain ⟨hfeed, hpart⟩ := h.feed_inside p (by omega)
      have hsize : (e.absorb p).groupSize = e.groupSize := by rw [h.absorb]
      have hrest := ih hpart (by rw [List.length_append, hsize, ← hlen]; simp; omega)
      have hfec : (e.absorb p).fecPacket (pkts ++ [p] ++ (rest ++ [pkt])) =
          e.fecPacket (pkts ++ (p :: rest ++ [pkt])) := by
        rw [h.absorb, List.append_assoc]
        rfl
      rw [List.cons_append, XorFecEncoder.feedAll, hfeed]
      simp only [hrest, hfec, List.length_cons, List.replicate_succ, List.cons_append]

/-- A whole group produces one FEC packet, with its last packet. -/
theorem feedAll_group (hcount : e.count = 0) (hne : pkts ≠ []) (hlen : pkts.length = e.groupSize) :
    (e.feedAll pkts).2 = List.replicate (e.groupSize - 1) none ++ [some (e.fecPacket pkts)] := by
  have hpos : 0 < pkts.length := List.length_pos_iff.2 hne
  have hsplit : pkts.dropLast ++ [pkts.getLast hne] = pkts := List.dropLast_append_getLast hne
  have hrest : pkts.dropLast.length = e.groupSize - 1 := by rw [List.length_dropLast, hlen]
  have h := (partway_nil hcount (by omega)).feedAll pkts.dropLast (pkts.getLast hne)
    (by rw [List.length_nil, hrest]; omega)
  rwa [List.nil_append, hsplit, hrest] at h

end XorFecEncoder

/-! ## The decoder -/

/-- An entry of `groups_`, its slots resized to the group size. -/
structure Group (groupSize : ℕ) where
  pkts : Fin groupSize → Option RtpPacket := fun _ => none
  fec : Option RtpPacket := none
  received : ℕ := 0

/-- A decoder; the entries are indexed by their base sequence number. -/
structure XorFecDecoder (groupSize : ℕ) where
  groups : Std.TreeMap UInt16 (Group groupSize) := ∅

/-- The arguments of a call of the decoder's `feed`. -/
structure Symbol where
  pkt : RtpPacket
  isFec : Bool
  deriving DecidableEq

variable {g : ℕ}

/-- The base sequence number of a data packet. -/
def dataBase (g : ℕ) (seq : UInt16) : UInt16 := UInt16.ofNat (seq.toNat / g * g)

/-- The base sequence number under which a packet is filed. -/
def Symbol.base (g : ℕ) (s : Symbol) : UInt16 :=
  if s.isFec then (s.pkt.timestamp &&& 0xFFFF).toUInt16 else dataBase g s.pkt.sequence

/-- The base of a data packet is its number rounded down to a multiple of the group size. -/
theorem dataBase_toNat (g : ℕ) (seq : UInt16) : (dataBase g seq).toNat = seq.toNat / g * g := by
  have hle : seq.toNat / g * g ≤ seq.toNat := Nat.div_mul_le_self _ _
  have hlt := seq.toNat_lt
  rw [dataBase, UInt16.toNat_ofNat']
  exact Nat.mod_eq_of_lt (by omega)

theorem dvd_dataBase (g : ℕ) (seq : UInt16) : g ∣ (dataBase g seq).toNat := by
  rw [dataBase_toNat]
  exact Nat.dvd_mul_left _ _

theorem dataBase_le (g : ℕ) (seq : UInt16) : (dataBase g seq).toNat ≤ seq.toNat := by
  rw [dataBase_toNat]
  exact Nat.div_mul_le_self _ _

/-- The numbers of an aligned group have its base. -/
theorem dataBase_of_eq_add {base seq : UInt16} {i : ℕ} (hdvd : g ∣ base.toNat) (hi : i < g)
    (hseq : seq.toNat = base.toNat + i) : dataBase g seq = base := by
  obtain ⟨q, hq⟩ := hdvd
  have hdiv : seq.toNat / g = q := by
    rw [hseq, hq, Nat.mul_add_div (by omega), Nat.div_eq_of_lt hi, Nat.add_zero]
  rw [← UInt16.toNat_inj, dataBase_toNat, hdiv, hq, Nat.mul_comm]

theorem base_data {s : Symbol} (h : s.isFec = false) : s.base g = dataBase g s.pkt.sequence := by
  rw [Symbol.base, if_neg (by rw [h]; exact Bool.false_ne_true)]

/-- The timestamp of an FEC packet leads to the number the encoder has put there. -/
theorem base_fecPacket (e : XorFecEncoder) (pkts : List RtpPacket) :
    Symbol.base g ⟨e.fecPacket pkts, true⟩ = XorFecEncoder.firstSeq pkts := by
  have hlt := (XorFecEncoder.firstSeq pkts).toNat_lt
  rw [Symbol.base, if_pos rfl]
  change ((XorFecEncoder.fecPacket e pkts).timestamp &&& 0xFFFF).toUInt16 = _
  rw [XorFecEncoder.fecPacket, RtpPacket.build_timestamp, ← UInt16.toNat_inj]
  simp only [UInt32.toNat_toUInt16, UInt32.toNat_and, UInt16.toNat_toUInt32]
  rw [show (0xFFFF : UInt32).toNat = 2 ^ 16 - 1 from rfl, Nat.and_two_pow_sub_one_eq_mod]
  omega

namespace Group

/-- A data packet goes to its slot, unless the slot is taken. -/
def putData (grp : Group g) (idx : ℕ) (pkt : RtpPacket) : Group g :=
  if h : idx < g then
    if grp.pkts ⟨idx, h⟩ = none then
      { grp with
        pkts := Function.update grp.pkts ⟨idx, h⟩ (some pkt)
        received := grp.received + 1 }
    -- a repetition
    else grp
  else grp

/-- A FEC packet is the group's; a data packet goes to the place its number gives it. -/
def file (grp : Group g) (s : Symbol) : Group g :=
  if s.isFec then { grp with fec := some s.pkt }
  else grp.putData (s.pkt.sequence.toNat - (dataBase g s.pkt.sequence).toNat) s.pkt

/-- The empty slots. -/
def missing (grp : Group g) : List (Fin g) := (List.finRange g).filter fun i => grp.pkts i = none

/-- The packets in the slots, in slot order. -/
def present (grp : Group g) : List RtpPacket := (List.finRange g).filterMap grp.pkts

/-- The packet rebuilt for the slot `idx`: the XOR of the FEC packet and all packets of the group,
under the payload type, timestamp and SSRC of the first of them. -/
def rebuild (grp : Group g) (base : UInt16) (fec : RtpPacket) (idx : Fin g) : RtpPacket :=
  let payload := (grp.present.map RtpPacket.payload).foldl padXor fec.payload
  let recSeq := UInt16.ofNat (base.toNat + idx)
  match grp.present.head? with
  | some p => .build p.payloadType recSeq p.timestamp p.ssrc payload
  | none => .build 96 recSeq 0 0 payload

/-- The recovery of a group that has an FEC packet and lacks one data packet. -/
def recover (grp : Group g) (base : UInt16) : Option RtpPacket :=
  match grp.fec, grp.missing with
  | some fec, [idx] => some (grp.rebuild base fec idx)
  | _, _ => none

/-! ### Filing -/

variable {grp : Group g} {s : Symbol}

/-- A FEC packet takes the place of the one before. -/
theorem file_fec_of_isFec (h : s.isFec = true) :
    grp.file s = { grp with fec := some s.pkt } := by
  rw [file, if_pos h]

/-- A data packet takes the place of its number. -/
theorem file_data (h : s.isFec = false) :
    grp.file s =
      grp.putData (s.pkt.sequence.toNat - (dataBase g s.pkt.sequence).toNat) s.pkt := by
  rw [file, if_neg (by rw [h]; exact Bool.false_ne_true)]

theorem putData_fec (grp : Group g) (idx : ℕ) (pkt : RtpPacket) :
    (grp.putData idx pkt).fec = grp.fec := by
  unfold putData
  split_ifs <;> rfl

/-- Filing a data packet fills its slot when that is empty and changes no other slot. -/
theorem putData_pkts (grp : Group g) (idx : ℕ) (pkt : RtpPacket) (i : Fin g) :
    (grp.putData idx pkt).pkts i =
      if (i : ℕ) = idx ∧ grp.pkts i = none then some pkt else grp.pkts i := by
  unfold putData
  by_cases hlt : idx < g
  · rw [dif_pos hlt]
    by_cases hi : i = ⟨idx, hlt⟩
    · subst hi
      by_cases hnone : grp.pkts ⟨idx, hlt⟩ = none
      · simp [hnone]
      · simp [hnone]
    · have hidx : (i : ℕ) ≠ idx := fun h => hi (Fin.ext h)
      rw [if_neg (c := (i : ℕ) = idx ∧ _) fun h => hidx h.1]
      split_ifs
      · exact Function.update_of_ne hi _ _
      · rfl
  · have hidx : (i : ℕ) ≠ idx := by omega
    rw [dif_neg hlt, if_neg fun h => hidx h.1]

/-- An entry that lacks one packet after a data packet has been filed lacked that packet before
already, or two, one of which has filled its slot. -/
theorem missing_of_putData {grp : Group g} {idx : ℕ} {pkt : RtpPacket} {k : Fin g}
    (h : ∀ i, (grp.putData idx pkt).pkts i = none ↔ i = k) :
    (∀ i, grp.pkts i = none ↔ i = k) ∨
      ∃ i : Fin g, i ≠ k ∧ (i : ℕ) = idx ∧ ∀ m, grp.pkts m = none ↔ m = i ∨ m = k := by
  simp only [putData_pkts] at h
  by_cases hslot : ∃ i : Fin g, (i : ℕ) = idx ∧ grp.pkts i = none
  · obtain ⟨i, hi, hempty⟩ := hslot
    have hik : i ≠ k := by
      intro hik
      have hfilled := (h i).2 hik
      rw [if_pos ⟨hi, hempty⟩] at hfilled
      cases hfilled
    refine Or.inr ⟨i, hik, hi, fun m => ?_⟩
    by_cases hm : m = i
    · simp [hm, hempty]
    · have hother := h m
      rw [if_neg fun hslot => hm (Fin.ext (hslot.1.trans hi.symm))] at hother
      rw [hother]
      simp [hm]
  · refine Or.inl fun i => ?_
    have hbefore := h i
    rwa [if_neg fun hslot' => hslot ⟨i, hslot'⟩] at hbefore

/-! ### Recovery -/

/-- A place is missing exactly if it is empty. -/
theorem mem_missing {i : Fin g} : i ∈ grp.missing ↔ grp.pkts i = none := by
  simp [missing]

/-- A group lacks exactly the packet `k`. -/
theorem missing_eq_singleton {k : Fin g} :
    grp.missing = [k] ↔ ∀ i, grp.pkts i = none ↔ i = k := by
  have hnodup : grp.missing.Nodup := (List.nodup_finRange g).filter _
  constructor
  · intro h i
    rw [← mem_missing, h, List.mem_singleton]
  · intro h
    have hmem (i : Fin g) : i ∈ grp.missing ↔ i ∈ [k] := by
      rw [mem_missing, h, List.mem_singleton]
    exact List.perm_singleton.1
      ((List.perm_ext_iff_of_nodup hnodup (List.nodup_singleton k)).2 hmem)

/-- A packet is recovered only where a single one is missing. -/
theorem recover_eq_some {base : UInt16} {pkt : RtpPacket} (h : grp.recover base = some pkt) :
    ∃ fec k, grp.fec = some fec ∧ (∀ i, grp.pkts i = none ↔ i = k) ∧
      pkt = grp.rebuild base fec k := by
  unfold recover at h
  split at h
  · rename_i fec k hfec hmissing
    exact ⟨fec, k, hfec, missing_eq_singleton.1 hmissing, (Option.some.inj h).symm⟩
  · cases h

theorem recover_of_missing {base : UInt16} {fec : RtpPacket} {k : Fin g} (hfec : grp.fec = some fec)
    (hmissing : ∀ i, grp.pkts i = none ↔ i = k) :
    grp.recover base = some (grp.rebuild base fec k) := by
  rw [recover, hfec, missing_eq_singleton.2 hmissing]

/-- Without a FEC packet nothing is recovered. -/
theorem recover_eq_none_of_fec {base : UInt16} (h : grp.fec = none) : grp.recover base = none := by
  rw [recover, h]

/-- A group that lacks two packets is not recovered. -/
theorem recover_eq_none_of_ne {base : UInt16} {i j : Fin g} (hij : i ≠ j) (hi : grp.pkts i = none)
    (hj : grp.pkts j = none) : grp.recover base = none := by
  cases hrec : grp.recover base with
  | none => rfl
  | some pkt =>
      obtain ⟨fec, k, -, hmissing, -⟩ := recover_eq_some hrec
      exact absurd (((hmissing i).1 hi).trans ((hmissing j).1 hj).symm) hij

/-- The recovered packet has the number of its place. -/
theorem rebuild_sequence (base : UInt16) (fec : RtpPacket) (k : Fin g) :
    (grp.rebuild base fec k).sequence = UInt16.ofNat (base.toNat + k) := by
  unfold rebuild
  cases grp.present.head? with
  | none => exact RtpPacket.build_sequence _ _ _ _ _ _
  | some p => exact RtpPacket.build_sequence _ _ _ _ _ _

theorem rebuild_payload (base : UInt16) (fec : RtpPacket) (k : Fin g) :
    (grp.rebuild base fec k).payload =
      padXor fec.payload (xorAll (grp.present.map RtpPacket.payload)) := by
  rw [← foldl_padXor, rebuild]
  cases grp.present.head? with
  | none => rfl
  | some p => rfl

/-- Every slot of an entry holds the packet with the number of the slot. -/
def WellFiled (grp : Group g) (base : UInt16) : Prop :=
  ∀ i pkt, grp.pkts i = some pkt → g ∣ base.toNat ∧ pkt.sequence.toNat = base.toNat + i

/-- Filing keeps every packet in its place. -/
theorem WellFiled.file (h : grp.WellFiled (s.base g)) : (grp.file s).WellFiled (s.base g) := by
  intro i pkt hi
  cases hfec : s.isFec with
  | true =>
      rw [file_fec_of_isFec hfec] at hi
      exact h i pkt hi
  | false =>
      rw [file_data hfec, putData_pkts] at hi
      split_ifs at hi with hslot
      · obtain rfl := Option.some.inj hi
        have hle := dataBase_le g s.pkt.sequence
        rw [base_data hfec]
        exact ⟨dvd_dataBase g _, by omega⟩
      · exact h i pkt hi

end Group

namespace XorFecDecoder

/-- A new decoder. -/
def init (g : ℕ) : XorFecDecoder g := {}

/-- `groups_[base]`, which is an empty entry where there is none. -/
def entry (d : XorFecDecoder g) (base : UInt16) : Group g := d.groups[base]?.getD {}

/-- The packet goes to its entry. -/
def fileSymbol (d : XorFecDecoder g) (s : Symbol) : XorFecDecoder g :=
  { groups := d.groups.insert (s.base g) ((d.entry (s.base g)).file s) }

/-- One step of the scan. -/
def tryRecover (entry : UInt16 × Group g) : Option (UInt16 × RtpPacket) :=
  (entry.2.recover entry.1).map fun pkt => (entry.1, pkt)

/-- The scan for a recoverable group, in the order of the base numbers. The first one found is
removed and its packet returned. -/
def scan (d : XorFecDecoder g) : XorFecDecoder g × Option RtpPacket :=
  match d.groups.toList.findSome? tryRecover with
  | some (base, pkt) => ({ groups := d.groups.erase base }, some pkt)
  | none => (d, none)

/-- A packet is filed, and the groups are searched for one that can be repaired. -/
def feed (d : XorFecDecoder g) (s : Symbol) : XorFecDecoder g × Option RtpPacket :=
  (d.fileSymbol s).scan

/-- The decoder after a call. -/
def next (d : XorFecDecoder g) (s : Symbol) : XorFecDecoder g := (d.feed s).1

/-- No entry is recoverable. -/
def Quiet (d : XorFecDecoder g) : Prop :=
  ∀ (base : UInt16) (grp : Group g), d.groups[base]? = some grp → grp.recover base = none

variable {d : XorFecDecoder g} (s : Symbol)

/-- The entry of a packet after it has been filed. -/
def filed (d : XorFecDecoder g) (s : Symbol) : Group g := (d.entry (s.base g)).file s

theorem groups_fileSymbol (base : UInt16) :
    (d.fileSymbol s).groups[base]? =
      if base = s.base g then some (d.filed s) else d.groups[base]? :=
  getElem?_insert_ite d.groups (s.base g) base (d.filed s)

/-- A call on a quiet decoder recovers the group of its own packet or nothing. -/
theorem feed_eq (h : d.Quiet) :
    d.feed s =
      match (d.filed s).recover (s.base g) with
      | some pkt => ({ groups := (d.fileSymbol s).groups.erase (s.base g) }, some pkt)
      | none => (d.fileSymbol s, none) := by
  have hown : (d.fileSymbol s).groups[s.base g]? = some (d.filed s) := by
    rw [groups_fileSymbol, if_pos rfl]
  have hother (base : UInt16) (grp : Group g) (hne : base ≠ s.base g)
      (hgrp : (d.fileSymbol s).groups[base]? = some grp) : tryRecover (base, grp) = none := by
    rw [groups_fileSymbol, if_neg hne] at hgrp
    rw [tryRecover, h base grp hgrp]
    rfl
  rw [feed, scan, findSome?_toList_eq hown hother, tryRecover]
  cases (d.filed s).recover (s.base g) with
  | none => rfl
  | some pkt => rfl

/-- What a quiet decoder returns comes from the group of the packet. -/
theorem feed_result (h : d.Quiet) : (d.feed s).2 = (d.filed s).recover (s.base g) := by
  rw [feed_eq s h]
  cases (d.filed s).recover (s.base g) with
  | none => rfl
  | some pkt => rfl

/-- The entry of the packet is updated, or removed when it is recovered; the others stay. -/
theorem groups_feed (h : d.Quiet) (base : UInt16) :
    (d.feed s).1.groups[base]? =
      if base = s.base g then
        if (d.filed s).recover (s.base g) = none then some (d.filed s) else none
      else d.groups[base]? := by
  rw [feed_eq s h]
  cases (d.filed s).recover (s.base g) with
  | none =>
      rw [if_pos rfl]
      exact groups_fileSymbol s base
  | some pkt =>
      change ((d.fileSymbol s).groups.erase (s.base g))[base]? = _
      rw [getElem?_erase_ite, groups_fileSymbol, if_neg (Option.some_ne_none pkt)]
      by_cases hbase : base = s.base g
      · rw [if_pos hbase, if_pos hbase]
      · rw [if_neg hbase, if_neg hbase, if_neg hbase]

theorem Quiet.feed (h : d.Quiet) : (d.feed s).1.Quiet := by
  intro base grp hgrp
  rw [groups_feed s h] at hgrp
  by_cases hbase : base = s.base g
  · rw [if_pos hbase] at hgrp
    by_cases hrec : (d.filed s).recover (s.base g) = none
    · rw [if_pos hrec, Option.some.injEq] at hgrp
      rw [← hgrp, hbase, hrec]
    · rw [if_neg hrec] at hgrp
      cases hgrp
  · rw [if_neg hbase] at hgrp
    exact h base grp hgrp

/-- What holds of a decoder between two calls. -/
structure AtRest (d : XorFecDecoder g) : Prop where
  quiet : d.Quiet
  filed : ∀ (base : UInt16) (grp : Group g), d.groups[base]? = some grp → grp.WellFiled base

theorem atRest_init (g : ℕ) : (init g).AtRest where
  quiet base grp hgrp := by simp [init] at hgrp
  filed base grp hgrp := by simp [init] at hgrp

theorem AtRest.entry (h : d.AtRest) (base : UInt16) : (d.entry base).WellFiled base := by
  unfold XorFecDecoder.entry
  cases hgrp : d.groups[base]? with
  | none =>
      intro i pkt hi
      cases hi
  | some grp => exact h.filed base grp hgrp

/-- No entry is recoverable, one that is not there included. -/
theorem Quiet.entry (h : d.Quiet) (base : UInt16) : (d.entry base).recover base = none := by
  unfold XorFecDecoder.entry
  cases hgrp : d.groups[base]? with
  | none => exact Group.recover_eq_none_of_fec rfl
  | some grp => exact h base grp hgrp

/-- A decoder at rest is at rest after every packet. -/
theorem AtRest.feed (h : d.AtRest) : (d.feed s).1.AtRest where
  quiet := h.quiet.feed s
  filed base grp hgrp := by
    rw [groups_feed s h.quiet] at hgrp
    by_cases hbase : base = s.base g
    · rw [if_pos hbase] at hgrp
      split_ifs at hgrp
      obtain rfl := Option.some.inj hgrp
      rw [hbase]
      exact (h.entry (s.base g)).file
    · rw [if_neg hbase] at hgrp
      exact h.filed base grp hgrp

/-- The entry of another base number stays as it is. -/
theorem entry_feed_of_ne (h : d.Quiet) {base : UInt16} (hbase : base ≠ s.base g) :
    (d.feed s).1.entry base = d.entry base := by
  rw [entry, groups_feed s h, if_neg hbase, entry]

/-- The entry of the packet, unless it was recovered. -/
theorem entry_feed_own (h : d.Quiet) (hnone : (d.feed s).2 = none) :
    (d.feed s).1.entry (s.base g) = d.filed s := by
  rw [feed_result s h] at hnone
  rw [entry, groups_feed s h, if_pos rfl, if_pos hnone, Option.getD_some]

end XorFecDecoder

end CppMeet.Weak.Fec
