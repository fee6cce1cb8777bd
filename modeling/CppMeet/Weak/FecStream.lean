import CppMeet.Weak.FecRecovery

/-!
# Streams of consecutive packets

The encoder cuts a stream into groups by counting: after `n` packets it holds the last `n % g` of
them (`feed_stream`), and whenever `g` divides `n` it has just sent the FEC packet of the last `g`.
In a stream of consecutive sequence numbers these `g` packets form an aligned group when the first
number is a multiple of `g` and the last does not wrap (`alignedGroup`).
-/

set_option autoImplicit false

namespace CppMeet.Weak.FecStream

open CppMeet.Rtp.Packet CppMeet.Weak.Fec CppMeet.Weak.Fec.XorFecEncoder
open CppMeet.Weak.FecRecovery

/-- The packets of the group that is being collected. -/
def openGroup (g : ℕ) (sent : List RtpPacket) : List RtpPacket :=
  sent.drop (sent.length / g * g)

/-- The last `g` packets. -/
def lastGroup (g : ℕ) (sent : List RtpPacket) : List RtpPacket := sent.drop (sent.length - g)

/-- Packet `i` has the sequence number `start + i` modulo 2^16. -/
def Consecutive (start : UInt16) (sent : List RtpPacket) : Prop :=
  ∀ (i : ℕ) (h : i < sent.length), sent[i].sequence = start + UInt16.ofNat i

variable {g : ℕ} {sent : List RtpPacket}

/-- The packets behind the last complete group. -/
theorem length_openGroup : (openGroup g sent).length = sent.length % g := by
  rw [openGroup, List.length_drop]
  have h := Nat.div_add_mod' sent.length g
  omega

/-- One more packet: the group goes on, or it is complete and its FEC packet is sent. -/
theorem feed_stream {e : XorFecEncoder} (hsize : e.groupSize = g)
    (h : e.Partway (openGroup g sent)) (pkt : RtpPacket) :
    (e.feed pkt).1.Partway (openGroup g (sent ++ [pkt])) ∧
      (e.feed pkt).2 = if g ∣ (sent ++ [pkt]).length then
        some (e.fecPacket (lastGroup g (sent ++ [pkt]))) else none := by
  have hlt := h.length_lt
  have hdivmod := Nat.div_add_mod' sent.length g
  rw [hsize, length_openGroup] at hlt
  have hlen : (sent ++ [pkt]).length = sent.length + 1 := List.length_append
  have hdrop : (sent ++ [pkt]).drop (sent.length / g * g) = openGroup g sent ++ [pkt] :=
    List.drop_append_of_le_length (by omega)
  by_cases hlast : sent.length % g + 1 = g
  · -- the packet completes a group, which is the last one of the stream so far
    have hmul : sent.length + 1 = (sent.length / g + 1) * g := by rw [Nat.add_mul]; omega
    have hdvd : g ∣ (sent ++ [pkt]).length :=
      ⟨sent.length / g + 1, by rw [hlen, hmul, Nat.mul_comm]⟩
    have hgroup : lastGroup g (sent ++ [pkt]) = openGroup g sent ++ [pkt] := by
      rw [lastGroup, hlen, ← hdrop]
      congr 1
      omega
    have hopen : openGroup g (sent ++ [pkt]) = [] := by
      rw [openGroup, Nat.div_mul_cancel hdvd, List.drop_length]
    obtain ⟨hfec, hpart⟩ := h.feed_last pkt (by rw [length_openGroup, hsize, hlast])
    rw [hopen, if_pos hdvd, hgroup]
    exact ⟨hpart, hfec⟩
  · -- the packet does not complete a group
    have hndvd : ¬ g ∣ (sent ++ [pkt]).length := by
      rw [hlen, ← hdivmod, Nat.add_assoc, Nat.dvd_add_right (Nat.dvd_mul_left _ _)]
      exact fun hd => absurd (Nat.le_of_dvd (by omega) hd) (by omega)
    have hquot : (sent.length + 1) / g = sent.length / g := by
      rw [Nat.succ_div, if_neg (by rwa [hlen] at hndvd), Nat.add_zero]
    have hopen : openGroup g (sent ++ [pkt]) = openGroup g sent ++ [pkt] := by
      rw [openGroup, hlen, hquot, hdrop]
    obtain ⟨hfeed, hpart⟩ := h.feed_inside pkt (by rw [length_openGroup, hsize]; omega)
    rw [hopen, if_neg hndvd, hfeed]
    exact ⟨hpart, rfl⟩

theorem Consecutive.append {start : UInt16} (h : Consecutive start sent) {pkt : RtpPacket}
    (hpkt : pkt.sequence = start + UInt16.ofNat sent.length) :
    Consecutive start (sent ++ [pkt]) := by
  intro i hi
  by_cases hlt : i < sent.length
  · rw [List.getElem_append_left hlt]
    exact h i hlt
  · obtain rfl : i = sent.length := by
      rw [List.length_append, List.length_singleton] at hi
      omega
    rw [List.getElem_concat_length rfl, hpkt]

/-! ## The last group -/

/-- The base of the last group. -/
def lastBase (g : ℕ) (start : UInt16) (sent : List RtpPacket) : UInt16 :=
  start + UInt16.ofNat (sent.length - g)

/-- Packet `i` of the last group. -/
def lastData (hlen : g ≤ sent.length) (i : Fin g) : RtpPacket :=
  sent.get ⟨sent.length - g + i, by omega⟩

theorem getElem?_lastData (hlen : g ≤ sent.length) (i : Fin g) :
    sent[sent.length - g + i]? = some (lastData hlen i) :=
  List.getElem?_eq_getElem _

/-- The last group, as packets by their places. -/
theorem ofFn_lastData (hlen : g ≤ sent.length) : List.ofFn (lastData hlen) = lastGroup g sent := by
  refine List.ext_getElem ?_ fun i h h' => ?_
  · rw [List.length_ofFn, lastGroup, List.length_drop]
    omega
  · rw [List.getElem_ofFn]
    simp only [lastGroup, List.getElem_drop, lastData, List.get_eq_getElem]

variable {start : UInt16}

/-- The numbers of the last group count up from its base. -/
theorem sequence_lastData (hcons : Consecutive start sent) (hlen : g ≤ sent.length) (i : Fin g) :
    (lastData hlen i).sequence.toNat = ((lastBase g start sent).toNat + i) % 2 ^ 16 := by
  rw [lastData, List.get_eq_getElem, hcons, lastBase]
  simp only [UInt16.toNat_add, UInt16.toNat_ofNat']
  omega

/-- The FEC packet of the last group carries its base. -/
theorem firstSeq_lastGroup (hcons : Consecutive start sent) (hlen : g ≤ sent.length) (hg : 0 < g) :
    firstSeq (lastGroup g sent) = lastBase g start sent := by
  have hlt : sent.length - g < sent.length := by omega
  rw [firstSeq, lastGroup, List.head?_drop, List.getElem?_eq_getElem hlt]
  exact hcons _ hlt

/-- The last group of a stream, where its base is a multiple of the group size and its numbers do
not wrap. -/
def alignedGroup (hcons : Consecutive start sent) (hlen : g ≤ sent.length)
    (hdvd : g ∣ (lastBase g start sent).toNat)
    (hfits : (lastBase g start sent).toNat + g ≤ 2 ^ 16) : AlignedGroup g where
  base := lastBase g start sent
  data := lastData hlen
  dvd := hdvd
  fits := hfits
  sequence_eq i := by
    have hi := i.isLt
    rw [sequence_lastData hcons hlen]
    exact Nat.mod_eq_of_lt (by omega)

/-- Where the group size divides 2^16, every group of a stream that starts at a group boundary is
aligned. -/
theorem aligned_lastBase (hdvd : g ∣ 2 ^ 16) (haligned : g ∣ start.toNat)
    (hlen : g ∣ sent.length) :
    g ∣ (lastBase g start sent).toNat ∧ (lastBase g start sent).toNat + g ≤ 2 ^ 16 := by
  have hbase : g ∣ (lastBase g start sent).toNat := by
    rw [lastBase, UInt16.toNat_add, UInt16.toNat_ofNat', Nat.add_mod_mod, Nat.dvd_mod_iff hdvd]
    exact Nat.dvd_add haligned (Nat.dvd_sub hlen (Nat.dvd_refl g))
  have hlt := (lastBase g start sent).toNat_lt
  refine ⟨hbase, ?_⟩
  rcases AlignedGroup.apart_of_dvd hbase hdvd (by omega) with h | h
  · exact h
  · omega

end CppMeet.Weak.FecStream
