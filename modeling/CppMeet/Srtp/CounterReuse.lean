import CppMeet.Srtp.Session
import Mathlib.Data.List.Nodup

/-!
# Counter blocks over a run of `protect`

A `SeqRun` is a run of RTP packets of one SSRC whose sequence numbers go up by one. `protect` never
moves the rollover counter, so the packet index of a packet is its sequence number alone. Within
one cycle of 2^16 packets the indexes differ and so do all counter blocks; packets at distances
that are multiples of 2^16 start from the same counter block. No counter block is encrypted twice
exactly when no two packets at such a distance both carry a payload (`counters_nodup_iff`).
-/

set_option autoImplicit false

namespace CppMeet.Srtp.CounterReuse

open CppMeet.Lib.BigEndian CppMeet.Srtp.Session

/-- RTP packets of one SSRC with consecutive sequence numbers modulo 2^16. -/
structure SeqRun where
  packets : List (List UInt8)
  start : UInt16
  ssrc : UInt32
  header_le : ∀ p ∈ packets, 12 ≤ p.length
  length_le : ∀ p ∈ packets, p.length ≤ 12 + 2 ^ 16
  seqOf_eq : ∀ (i : ℕ) (h : i < packets.length), seqOf packets[i] = start + UInt16.ofNat i
  ssrcOf_eq : ∀ p ∈ packets, ssrcOf p = ssrc
  short : packets.length < 2 ^ 48

/-- What `protect` encrypts. -/
def payloadOf (pkt : List UInt8) : List UInt8 := pkt.drop 12

/-- All counter blocks that a session with this key and salt encrypts over the packets. -/
def sessionCounters (c : Crypto) (key : Fin 16 → UInt8) (salt : Fin 14 → UInt8) (isSend : Bool)
    (packets : List (List UInt8)) : List Block :=
  (protectCounters c (init key salt isSend) packets).flatten

/-- The counter blocks of one packet, as a function of its sequence number. -/
def blocksOf (salt : Fin 14 → UInt8) (pkt : List UInt8) : List Block :=
  (List.range (((payloadOf pkt).length + 15) / 16)).map
    (withCounter (buildAesCmIv salt (ssrcOf pkt) (seqOf pkt).toUInt32.toUInt64))

/-- With the rollover counter at 0 the index is the sequence number. -/
theorem pktIndex_init (key : Fin 16 → UInt8) (salt : Fin 14 → UInt8) (isSend : Bool)
    (seq : UInt16) : (pktIndex (init key salt isSend) seq).toUInt32 = seq.toUInt32 := by
  rw [← UInt32.toNat_inj]
  simp [pktIndex, init]

theorem protect_session (c : Crypto) (s : SrtpSession) (pkt : List UInt8) :
    (protect c s pkt).session = s := by
  unfold protect
  split <;> rfl

/-- The counters of a packet are those of its blocks. -/
theorem protect_counters (c : Crypto) (key : Fin 16 → UInt8) (salt : Fin 14 → UInt8)
    (isSend : Bool) {pkt : List UInt8} (h12 : 12 ≤ pkt.length)
    (hlen : pkt.length ≤ 12 + 2 ^ 16) :
    (protect c (init key salt isSend) pkt).counters = blocksOf salt pkt := by
  have hpay : (payloadOf pkt).length = pkt.length - 12 := List.length_drop
  rw [protect, if_neg (by omega), pktIndex_init]
  simp only [aesCmXor_counters]
  refine List.map_congr_left fun j hj => ?_
  rw [List.mem_range, List.length_drop] at hj
  exact counterAt_eq salt _ _ (by omega)

theorem protectCounters_eq_map (c : Crypto) (key : Fin 16 → UInt8) (salt : Fin 14 → UInt8)
    (isSend : Bool) (packets : List (List UInt8)) (h12 : ∀ p ∈ packets, 12 ≤ p.length)
    (hlen : ∀ p ∈ packets, p.length ≤ 12 + 2 ^ 16) :
    protectCounters c (init key salt isSend) packets = packets.map (blocksOf salt) := by
  induction packets with
  | nil => rfl
  | cons p packets ih =>
      rw [protectCounters, protect_session,
        protect_counters c key salt isSend (h12 p List.mem_cons_self) (hlen p List.mem_cons_self),
        ih (fun q hq => h12 q (List.mem_cons_of_mem _ hq))
          (fun q hq => hlen q (List.mem_cons_of_mem _ hq)), List.map_cons]

/-! ## Blocks of one packet and of two -/

section Blocks

variable {salt : Fin 14 → UInt8} {p q : List UInt8}

/-- The blocks of one packet have different counters. -/
theorem blocksOf_nodup (hlen : p.length ≤ 12 + 2 ^ 16) : (blocksOf salt p).Nodup := by
  have hpay : (payloadOf p).length = p.length - 12 := List.length_drop
  refine List.Nodup.map_on ?_ List.nodup_range
  intro j hj j' hj' h
  rw [List.mem_range] at hj hj'
  exact withCounter_inj (by omega) (by omega) h

theorem blocksOf_eq_nil (h : payloadOf p = []) : blocksOf salt p = [] := by
  rw [blocksOf, h]
  rfl

/-- The first counter block of a packet that carries a payload. -/
theorem mem_blocksOf (salt : Fin 14 → UInt8) (h : payloadOf p ≠ []) :
    withCounter (buildAesCmIv salt (ssrcOf p) (seqOf p).toUInt32.toUInt64) 0 ∈
      blocksOf salt p := by
  have hpos : 0 < (payloadOf p).length := List.length_pos_iff.2 h
  exact List.mem_map_of_mem (List.mem_range.2 (by omega))

/-- Packets with different sequence numbers share no counter. -/
theorem blocksOf_disjoint_of_ne (h : seqOf p ≠ seqOf q) :
    List.Disjoint (blocksOf salt p) (blocksOf salt q) := by
  intro b hp hq
  obtain ⟨j, -, rfl⟩ := List.mem_map.1 hp
  obtain ⟨j', -, hb⟩ := List.mem_map.1 hq
  have hindex := (eq_of_withCounter_eq hb).2
  refine h ?_
  rw [← UInt16.toNat_inj, ← UInt16.toNat_toUInt32, ← hindex, UInt16.toNat_toUInt32]

/-- Two packets with the same SSRC have disjoint counter blocks exactly when their sequence
numbers differ or one of them has nothing to encrypt. -/
theorem blocksOf_disjoint_iff (hssrc : ssrcOf p = ssrcOf q) :
    List.Disjoint (blocksOf salt p) (blocksOf salt q) ↔
      (seqOf p = seqOf q → payloadOf p = [] ∨ payloadOf q = []) := by
  constructor
  · intro hdis hseq
    by_contra hne
    rw [not_or] at hne
    have hp := mem_blocksOf salt hne.1
    have hq := mem_blocksOf salt hne.2
    rw [← hssrc, ← hseq] at hq
    exact hdis hp hq
  · intro h
    by_cases hseq : seqOf p = seqOf q
    · rcases h hseq with hp | hq
      · rw [blocksOf_eq_nil hp]
        exact List.disjoint_nil_left _
      · rw [blocksOf_eq_nil hq]
        exact List.disjoint_nil_right _
    · exact blocksOf_disjoint_of_ne hseq

end Blocks

/-! ## The run -/

theorem SeqRun.seqOf_eq_iff (run : SeqRun) {i j : ℕ} (hi : i < run.packets.length)
    (hj : j < run.packets.length) :
    seqOf run.packets[i] = seqOf run.packets[j] ↔ i % 2 ^ 16 = j % 2 ^ 16 := by
  rw [run.seqOf_eq i hi, run.seqOf_eq j hj, UInt16.add_right_inj, ← UInt16.toNat_inj,
    UInt16.toNat_ofNat', UInt16.toNat_ofNat']

/-- No counter block is encrypted twice exactly when no two packets of the run at a distance that
is a multiple of 2^16 both carry a payload. -/
theorem counters_nodup_iff (c : Crypto) (key : Fin 16 → UInt8) (salt : Fin 14 → UInt8)
    (isSend : Bool) (run : SeqRun) :
    (sessionCounters c key salt isSend run.packets).Nodup ↔
      ∀ (i j : ℕ) (hi : i < run.packets.length) (hj : j < run.packets.length),
        i < j → i % 2 ^ 16 = j % 2 ^ 16 →
          payloadOf run.packets[i] = [] ∨ payloadOf run.packets[j] = [] := by
  rw [sessionCounters, protectCounters_eq_map c key salt isSend _ run.header_le run.length_le,
    List.nodup_flatten, List.pairwise_map, List.pairwise_iff_getElem]
  have hdisjoint (i j : ℕ) (hi : i < run.packets.length) (hj : j < run.packets.length) :
      List.Disjoint (blocksOf salt run.packets[i]) (blocksOf salt run.packets[j]) ↔
        (i % 2 ^ 16 = j % 2 ^ 16 →
          payloadOf run.packets[i] = [] ∨ payloadOf run.packets[j] = []) := by
    rw [blocksOf_disjoint_iff, run.seqOf_eq_iff hi hj]
    rw [run.ssrcOf_eq _ (List.getElem_mem hi), run.ssrcOf_eq _ (List.getElem_mem hj)]
  constructor
  · rintro ⟨-, hpair⟩ i j hi hj hij
    exact (hdisjoint i j hi hj).1 (hpair i j hi hj hij)
  · intro h
    refine ⟨?_, fun i j hi hj hij => (hdisjoint i j hi hj).2 (h i j hi hj hij)⟩
    intro l hl
    obtain ⟨p, hp, rfl⟩ := List.mem_map.1 hl
    exact blocksOf_nodup (run.length_le p hp)

/-! ## One cycle and one packet more -/

/-- Packet `i` of a stream with one-byte payloads that starts at sequence number 0. -/
def oneBytePacket (i : ℕ) : List UInt8 :=
  [0x80, 0x60] ++ put16 (UInt16.ofNat i) ++ [0, 0, 0, 0, 0xCA, 0xFE, 0xBA, 0xBE, 0x55]

theorem seqOf_oneBytePacket (i : ℕ) : seqOf (oneBytePacket i) = UInt16.ofNat i :=
  be16_bytes (UInt16.ofNat i)

theorem ssrcOf_oneBytePacket (i : ℕ) : ssrcOf (oneBytePacket i) = 0xCAFEBABE := by
  change be32 0xCA 0xFE 0xBA 0xBE = 0xCAFEBABE
  decide

/-- A run of 2^16 + 1 packets: the last has the sequence number of the first. -/
def wrapRun : SeqRun where
  packets := (List.range 65537).map oneBytePacket
  start := 0
  ssrc := 0xCAFEBABE
  header_le p hp := by
    obtain ⟨i, -, rfl⟩ := List.mem_map.1 hp
    simp [oneBytePacket, put16]
  length_le p hp := by
    obtain ⟨i, -, rfl⟩ := List.mem_map.1 hp
    simp [oneBytePacket, put16]
  seqOf_eq i h := by
    rw [List.getElem_map, List.getElem_range, seqOf_oneBytePacket, UInt16.zero_add]
  ssrcOf_eq p hp := by
    obtain ⟨i, -, rfl⟩ := List.mem_map.1 hp
    exact ssrcOf_oneBytePacket i
  short := by simp

/-- AES and HMAC-SHA1 replaced by functions that ignore the key. -/
def keylessCrypto : Crypto where
  aesEncrypt _ block := block
  hmacSha1 _ _ _ := 0

/-- The first and the last packet of `wrapRun` are encrypted with the same keystream. -/
theorem counters_wrapRun_not_nodup :
    ¬ (sessionCounters keylessCrypto (fun _ => 1) (fun _ => 2) true wrapRun.packets).Nodup := by
  intro h
  rw [sessionCounters, protectCounters_eq_map _ _ _ _ _ wrapRun.header_le wrapRun.length_le,
    List.nodup_flatten, List.pairwise_map, List.pairwise_iff_getElem] at h
  have hpos : 0 < wrapRun.packets.length := by simp [wrapRun]
  have hlong : 65536 < wrapRun.packets.length := by simp [wrapRun]
  have hdis := h.2 0 65536 hpos hlong (by omega)
  have hfirst : wrapRun.packets[0] = oneBytePacket 0 := by simp [wrapRun]
  have hlast : wrapRun.packets[65536] = oneBytePacket 65536 := by simp [wrapRun]
  rw [hfirst, hlast, blocksOf_disjoint_iff (by rw [ssrcOf_oneBytePacket, ssrcOf_oneBytePacket]),
    seqOf_oneBytePacket, seqOf_oneBytePacket] at hdis
  rcases hdis rfl with hp | hp
  · exact absurd hp (by decide)
  · exact absurd hp (by decide)

end CppMeet.Srtp.CounterReuse
