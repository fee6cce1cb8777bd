import CppMeet.Srtp.Session

/-!
# Protecting and unprotecting

The keystream depends on the header and not on the payload, and `protect` leaves the header alone,
so encrypting again decrypts (`crypt_crypt`). A protected packet is an encrypted packet followed by
its tag, and `unprotect` accepts exactly the buffers of this form (`unprotect_inverts_protect`).
-/

set_option autoImplicit false

namespace CppMeet.Srtp.Inverse

open CppMeet.Lib.BigEndian CppMeet.Srtp.Session

variable (c : Crypto) (s : SrtpSession)

/-- The packet with its payload XORed with the keystream. -/
def crypt (pkt : List UInt8) : List UInt8 :=
  pkt.take 12 ++ (aesCmXor c s (pkt.drop 12) (ssrcOf pkt) (pktIndex s (seqOf pkt)).toUInt32).1

/-- The tag of an encrypted packet. -/
def tagOf (encrypted : List UInt8) : List UInt8 :=
  hmacSha1_80 c encrypted (List.ofFn s.masterKey)

/-! ## The keystream -/

theorem zipWith_xor_cancel (buf keys : List UInt8) (h : buf.length ≤ keys.length) :
    List.zipWith (· ^^^ ·) (List.zipWith (· ^^^ ·) buf keys) keys = buf := by
  induction buf generalizing keys with
  | nil => rfl
  | cons b buf ih =>
      cases keys with
      | nil => simp at h
      | cons k keys =>
          rw [List.zipWith_cons_cons, List.zipWith_cons_cons, ih keys (by simpa using h)]
          rw [UInt8.xor_assoc, UInt8.xor_self, UInt8.xor_zero]

theorem length_aesCmLoop (encrypt : Block → Block) (counter : Block) (buf : List UInt8) :
    (aesCmLoop encrypt counter buf).1.length = buf.length := by
  fun_induction aesCmLoop encrypt counter buf with
  | case1 counter => rfl
  | case2 counter buf hne keystream chunk rest ih =>
      simp only [chunk, rest, List.length_append, List.length_zipWith, List.length_take,
        List.length_ofFn, ih, List.length_drop]
      omega

/-- A chunk and the blocks after it come apart again where they were joined. -/
theorem take_drop_append {chunk rest : List UInt8} {n : ℕ}
    (h : chunk.length = n ∨ chunk.length ≤ n ∧ rest = []) :
    (chunk ++ rest).take n = chunk ∧ (chunk ++ rest).drop n = rest := by
  rcases h with hfull | ⟨hle, hnil⟩
  · exact ⟨List.take_left' hfull, List.drop_left' hfull⟩
  · subst hnil
    rw [List.append_nil]
    exact ⟨List.take_of_length_le hle, List.drop_eq_nil_of_le hle⟩

/-- Block by block, XORing with the keystream a second time undoes the first time. -/
theorem aesCmLoop_aesCmLoop (encrypt : Block → Block) (counter : Block) (buf : List UInt8) :
    (aesCmLoop encrypt counter (aesCmLoop encrypt counter buf).1).1 = buf := by
  fun_induction aesCmLoop encrypt counter buf with
  | case1 counter =>
      rw [aesCmLoop]
      rfl
  | case2 counter buf hne keystream chunk rest ih =>
      have hpos : 0 < buf.length := List.length_pos_iff.2 hne
      have hchunk : chunk.length = min 16 buf.length := by
        simp only [chunk, List.length_zipWith, List.length_take, List.length_ofFn]
        omega
      have hrest : rest.1.length = buf.length - 16 := by
        rw [length_aesCmLoop, List.length_drop]
      -- either the chunk is a full block or no block follows it
      have hsplit : chunk.length = 16 ∨ chunk.length ≤ 16 ∧ rest.1 = [] := by
        rcases Nat.lt_or_ge buf.length 16 with hlt | hge
        · exact Or.inr ⟨by omega, List.eq_nil_of_length_eq_zero (by omega)⟩
        · exact Or.inl (by omega)
      obtain ⟨htake, hdrop⟩ := take_drop_append hsplit
      have hnonempty : chunk ++ rest.1 ≠ [] := by
        apply List.ne_nil_of_length_pos
        rw [List.length_append]
        omega
      have hkeys : (buf.take 16).length ≤ (List.ofFn keystream).length := by
        rw [List.length_ofFn]
        exact List.length_take_le 16 buf
      -- the chunk comes back, and the induction does the blocks after it
      have hagain := zipWith_xor_cancel _ _ hkeys
      rw [aesCmLoop, if_neg hnonempty, htake, hdrop]
      change List.zipWith (· ^^^ ·) chunk (List.ofFn keystream) ++
        (aesCmLoop encrypt (increment counter) rest.1).1 = buf
      rw [hagain, ih, List.take_append_drop]

/-! ## Encrypting keeps the header -/

/-- Encryption keeps the length of the packet. -/
theorem length_crypt {pkt : List UInt8} (h : 12 ≤ pkt.length) :
    (crypt c s pkt).length = pkt.length := by
  rw [crypt, aesCmXor, List.length_append, length_aesCmLoop, List.length_take, List.length_drop]
  omega

theorem take_crypt {pkt : List UInt8} (h : 12 ≤ pkt.length) :
    (crypt c s pkt).take 12 = pkt.take 12 := by
  apply List.take_left'
  rw [List.length_take]
  omega

/-- What is behind them is what the cipher makes of it. -/
theorem drop_crypt {pkt : List UInt8} (h : 12 ≤ pkt.length) :
    (crypt c s pkt).drop 12 =
      (aesCmXor c s (pkt.drop 12) (ssrcOf pkt) (pktIndex s (seqOf pkt)).toUInt32).1 := by
  apply List.drop_left'
  rw [List.length_take]
  omega

/-- The header bytes are those of the first twelve bytes alone. -/
theorem getD_take (pkt : List UInt8) {i : ℕ} (hi : i < 12) :
    (pkt.take 12).getD i 0 = pkt.getD i 0 := by
  rw [List.getD_eq_getElem?_getD, List.getD_eq_getElem?_getD, List.getElem?_take_of_lt hi]

/-- The sequence number and the source are in the first twelve bytes. -/
theorem header_eq {pkt pkt' : List UInt8} (h : pkt.take 12 = pkt'.take 12) :
    seqOf pkt = seqOf pkt' ∧ ssrcOf pkt = ssrcOf pkt' := by
  have hbyte (i : ℕ) (hi : i < 12) : pkt.getD i 0 = pkt'.getD i 0 := by
    rw [← getD_take pkt hi, h, getD_take pkt' hi]
  constructor
  · rw [seqOf, hbyte 2 (by decide), hbyte 3 (by decide), ← seqOf]
  · rw [ssrcOf, hbyte 8 (by decide), hbyte 9 (by decide), hbyte 10 (by decide),
      hbyte 11 (by decide), ← ssrcOf]

/-- Encrypting an encrypted packet decrypts it: the keystream is the one of the header. -/
theorem crypt_crypt {pkt : List UInt8} (h : 12 ≤ pkt.length) :
    crypt c s (crypt c s pkt) = pkt := by
  obtain ⟨hseq, hssrc⟩ := header_eq (take_crypt c s h)
  rw [crypt, take_crypt c s h, drop_crypt c s h, hseq, hssrc]
  rw [aesCmXor, aesCmXor, aesCmLoop_aesCmLoop, List.take_append_drop]

/-! ## The tag -/

@[simp] theorem length_tagOf (encrypted : List UInt8) : (tagOf c s encrypted).length = 10 := by
  rw [tagOf, hmacSha1_80, List.length_take, List.length_ofFn]
  rfl

/-- The accumulated difference is zero exactly if all differences are. -/
theorem foldl_or_eq_zero (d : ℕ → UInt8) (is : List ℕ) (diff : UInt8) :
    is.foldl (fun diff i => diff ||| d i) diff = 0 ↔ diff = 0 ∧ ∀ i ∈ is, d i = 0 := by
  induction is generalizing diff with
  | nil => simp
  | cons i is ih =>
      rw [List.foldl_cons, ih, UInt8.or_eq_zero_iff, and_assoc, List.forall_mem_cons]

/-- Nothing differs exactly if the ten bytes from offset `p` on are the expected tag. -/
theorem tagDiff_eq_zero_iff {expected inOut : List UInt8} {p : ℕ} (he : expected.length = 10)
    (hp : inOut.length = p + 10) : tagDiff expected inOut p = 0 ↔ inOut.drop p = expected := by
  have hlen : (inOut.drop p).length = expected.length := by
    rw [List.length_drop]
    omega
  -- the difference is an or of ten bytes, so it is zero when each of them is
  rw [tagDiff, foldl_or_eq_zero]
  constructor
  · intro h
    apply List.ext_getElem hlen
    intro i hi hi'
    have hbyte := h.2 i (List.mem_range.2 (by omega))
    rw [UInt8.xor_eq_zero_iff] at hbyte
    rw [List.getElem_drop, ← List.getD_eq_getElem inOut 0, ← hbyte, List.getD_eq_getElem]
  · intro h
    refine ⟨rfl, fun i _ => ?_⟩
    rw [← h, List.getD_eq_getElem?_getD, List.getElem?_drop, ← List.getD_eq_getElem?_getD,
      UInt8.xor_self]

/-! ## The two operations -/

theorem protect_of_lt {pkt : List UInt8} (h : pkt.length < 12) :
    protect c s pkt = ⟨false, s, pkt, []⟩ := if_pos h

/-- A packet is protected exactly if it has a header. -/
theorem ok_protect_iff (pkt : List UInt8) : (protect c s pkt).ok = true ↔ 12 ≤ pkt.length := by
  rw [protect]
  split
  · simp only [Bool.false_eq_true, false_iff]
    omega
  · simp only [true_iff]
    omega

/-- A protected packet is the encrypted one and its tag. -/
theorem inOut_protect {pkt : List UInt8} (h : 12 ≤ pkt.length) :
    (protect c s pkt).inOut = crypt c s pkt ++ tagOf c s (crypt c s pkt) := by
  rw [protect, if_neg (by omega)]
  rfl

/-- A packet that ends in its tag is decrypted. -/
theorem unprotect_of_tag {x : List UInt8} (h : 22 ≤ x.length)
    (htag : x.drop (x.length - 10) = tagOf c s (x.take (x.length - 10))) :
    (unprotect c s x).ok = true ∧
      (unprotect c s x).inOut = crypt c s (x.take (x.length - 10)) := by
  have hdiff := (tagDiff_eq_zero_iff (length_tagOf c s (x.take (x.length - 10)))
    (show x.length = (x.length - 10) + 10 by omega)).2 htag
  rw [tagOf] at hdiff
  simp only [unprotect, if_neg (show ¬x.length < 12 + 10 by omega), hdiff]
  exact ⟨rfl, rfl⟩

theorem tag_of_unprotect {x : List UInt8} (h : (unprotect c s x).ok = true) :
    22 ≤ x.length ∧ x.drop (x.length - 10) = tagOf c s (x.take (x.length - 10)) := by
  simp only [unprotect] at h
  split at h
  · exact absurd h Bool.false_ne_true
  · split at h
    · exact absurd h Bool.false_ne_true
    · rename_i hlen hdiff
      refine ⟨by omega, ?_⟩
      exact (tagDiff_eq_zero_iff (length_tagOf c s _) (by omega)).1 (not_not.1 hdiff)

/-- A packet that is refused stays as it was. -/
theorem inOut_of_not_ok {x : List UInt8} (h : (unprotect c s x).ok = false) :
    (unprotect c s x).inOut = x := by
  simp only [unprotect] at h ⊢
  split
  · rfl
  · split
    · rfl
    · -- an accepted buffer
      rename_i hlen hdiff
      rw [if_neg hlen, if_neg hdiff] at h
      exact absurd h.symm Bool.false_ne_true

theorem unprotect_protect {pkt : List UInt8} (h : 12 ≤ pkt.length) :
    (unprotect c s (protect c s pkt).inOut).ok = true ∧
      (unprotect c s (protect c s pkt).inOut).inOut = pkt := by
  have hcrypt := length_crypt c s h
  rw [inOut_protect c s h]
  have hlen : (crypt c s pkt ++ tagOf c s (crypt c s pkt)).length - 10 =
      (crypt c s pkt).length := by
    rw [List.length_append, length_tagOf]
    omega
  have htake : (crypt c s pkt ++ tagOf c s (crypt c s pkt)).take
      ((crypt c s pkt ++ tagOf c s (crypt c s pkt)).length - 10) = crypt c s pkt :=
    List.take_left' hlen.symm
  have hdrop : (crypt c s pkt ++ tagOf c s (crypt c s pkt)).drop
      ((crypt c s pkt ++ tagOf c s (crypt c s pkt)).length - 10) = tagOf c s (crypt c s pkt) :=
    List.drop_left' hlen.symm
  have hun := unprotect_of_tag c s (x := crypt c s pkt ++ tagOf c s (crypt c s pkt))
    (by rw [List.length_append, length_tagOf]; omega) (by rw [htake, hdrop])
  rw [htake, crypt_crypt c s h] at hun
  exact hun

/-- Only results of `protect` are accepted. -/
theorem exists_protect {x : List UInt8} (h : (unprotect c s x).ok = true) :
    ∃ pkt, 12 ≤ pkt.length ∧ (protect c s pkt).inOut = x := by
  obtain ⟨hlen, htag⟩ := tag_of_unprotect c s h
  have hbody : 12 ≤ (x.take (x.length - 10)).length := by
    rw [List.length_take]
    omega
  have hcrypt : 12 ≤ (crypt c s (x.take (x.length - 10))).length := by
    rw [length_crypt c s hbody]
    exact hbody
  -- the packet is the decrypted body
  refine ⟨crypt c s (x.take (x.length - 10)), hcrypt, ?_⟩
  rw [inOut_protect c s hcrypt, crypt_crypt c s hbody, ← htag, List.take_append_drop]

/-- The direction flag of a session plays no part. -/
theorem unprotect_congr {r : SrtpSession} (hkey : r.masterKey = s.masterKey)
    (hsalt : r.masterSalt = s.masterSalt) (hroc : r.roc = s.roc) (x : List UInt8) :
    (unprotect c r x).ok = (unprotect c s x).ok ∧
      (unprotect c r x).inOut = (unprotect c s x).inOut := by
  simp only [unprotect, aesCmXor, pktIndex, hkey, hsalt, hroc]
  split
  · exact ⟨rfl, rfl⟩
  · split
    · exact ⟨rfl, rfl⟩
    · exact ⟨rfl, rfl⟩

/-- Two sessions of one key and one salt: `protect` takes the packets of at least 12 bytes and adds
10 bytes, and `unprotect` accepts exactly the results of `protect` and gives back the packet. A call
that fails leaves the buffer as it was. -/
theorem unprotect_inverts_protect (key : Fin 16 → UInt8) (salt : Fin 14 → UInt8)
    (isSend isSend' : Bool) :
    (∀ pkt : List UInt8,
      let sent := protect c (init key salt isSend) pkt
      (sent.ok = true ↔ 12 ≤ pkt.length) ∧
        (sent.ok = true → sent.inOut.length = pkt.length + 10) ∧
        (sent.ok = false → sent.inOut = pkt)) ∧
    ∀ x : List UInt8,
      let received := unprotect c (init key salt isSend') x
      (received.ok = true ↔ ∃ pkt,
        (protect c (init key salt isSend) pkt).ok = true ∧
          (protect c (init key salt isSend) pkt).inOut = x) ∧
      (∀ pkt, (protect c (init key salt isSend) pkt).ok = true →
        (protect c (init key salt isSend) pkt).inOut = x → received.inOut = pkt) ∧
      (received.ok = false → received.inOut = x) := by
  constructor
  · intro pkt
    refine ⟨ok_protect_iff c _ pkt, fun hok => ?_, fun hfail => ?_⟩
    · have hlen := (ok_protect_iff c _ pkt).1 hok
      rw [inOut_protect c _ hlen, List.length_append, length_crypt c _ hlen, length_tagOf]
    · have hlen : pkt.length < 12 := by
        rw [← Nat.not_le, ← ok_protect_iff c (init key salt isSend) pkt, hfail]
        decide
      rw [protect_of_lt c _ hlen]
  · intro x
    -- the two directions have the same key and salt, which is all that `unprotect` reads
    obtain ⟨hok, hinOut⟩ := unprotect_congr c (init key salt isSend)
      (r := init key salt isSend') rfl rfl rfl x
    simp only [hok, hinOut]
    refine ⟨⟨fun haccept => ?_, ?_⟩, ?_, inOut_of_not_ok c _⟩
    · -- an accepted packet carries the tag of its own bytes
      obtain ⟨pkt, hlen, hx⟩ := exists_protect c _ haccept
      exact ⟨pkt, (ok_protect_iff c _ pkt).2 hlen, hx⟩
    · rintro ⟨pkt, hsent, rfl⟩
      exact (unprotect_protect c _ ((ok_protect_iff c _ pkt).1 hsent)).1
    · intro pkt hsent hx
      subst hx
      exact (unprotect_protect c _ ((ok_protect_iff c _ pkt).1 hsent)).2

end CppMeet.Srtp.Inverse
