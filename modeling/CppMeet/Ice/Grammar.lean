import CppMeet.Ice.Stun

/-!
# The grammar of STUN messages

`Body` is what `parse` takes for the attributes between the header and the end that the header
declares: attributes with their padding, where the end may cut the padding of the last one, and at
most three bytes that are too few for another attribute. The loop goes through any body the same way
wherever it stands in a buffer (`exists_scan`), and accepts exactly those of the grammar
(`Body.parseAttrs`).
-/

set_option autoImplicit false

namespace CppMeet.Ice.Grammar

open CppMeet.Lib.BigEndian CppMeet.Lib.Buffer CppMeet.Ice.Stun CppMeet.Ice.Stun.StunMessage

/-- An attribute without its padding. -/
def unpadded (attr : StunAttr × List UInt8) : List UInt8 :=
  put16 attr.1.code ++ (put16 (UInt16.ofNat attr.2.length) ++ attr.2)

/-- The bytes of a body and the attributes that they hold. -/
inductive Body : List UInt8 → List (StunAttr × List UInt8) → Prop where
  | spare {rest : List UInt8} (hrest : rest.length < 4) : Body rest []
  | cut {attr : StunAttr × List UInt8} {padding : List UInt8} (hlen : attr.2.length < 65536)
      (hpad : padding.length < pad attr.2.length) : Body (unpadded attr ++ padding) [attr]
  | cons {attr : StunAttr × List UInt8} {padding body : List UInt8}
      {attrs : List (StunAttr × List UInt8)} (hlen : attr.2.length < 65536)
      (hpad : padding.length = pad attr.2.length) (hbody : Body body attrs) :
      Body (unpadded attr ++ (padding ++ body)) (attr :: attrs)

/-- The bytes of complete attributes and of a last one whose value reaches over the end, and what
the complete ones hold. -/
inductive Overrun : List UInt8 → List (StunAttr × List UInt8) → Prop where
  | here (attrType attrLen : UInt16) {tail : List UInt8} (hover : tail.length < attrLen.toNat) :
      Overrun (put16 attrType ++ (put16 attrLen ++ tail)) []
  | cons {attr : StunAttr × List UInt8} {padding body : List UInt8}
      {attrs : List (StunAttr × List UInt8)} (hlen : attr.2.length < 65536)
      (hpad : padding.length = pad attr.2.length) (hbody : Overrun body attrs) :
      Overrun (unpadded attr ++ (padding ++ body)) (attr :: attrs)

/-- The buffer starts with a message whose body holds the given attributes. -/
structure Accepted (data : List UInt8) (msgLen : UInt16) (attrs : List (StunAttr × List UInt8)) :
    Prop where
  declared : readU16 data 2 = some msgLen
  complete : 20 + msgLen.toNat ≤ data.length
  topBits : ∃ first, data[0]? = some first ∧ first &&& 0xC0 = 0
  cookie : readU32 data 4 = some stunMagicCookie
  body : Body ((data.drop 20).take msgLen.toNat) attrs

/-! ## One attribute -/

/-- Four bytes of type and length, and the value. -/
theorem length_unpadded (attr : StunAttr × List UInt8) :
    (unpadded attr).length = 4 + attr.2.length := by
  rw [unpadded, List.length_append, List.length_append, ← Nat.add_assoc]
  rfl

/-- The type, the length and the value of an attribute, with any bytes before and after. -/
theorem read_unpadded (pre post : List UInt8) (attr : StunAttr × List UInt8) :
    readU16 (pre ++ (unpadded attr ++ post)) pre.length = some attr.1.code ∧
      readU16 (pre ++ (unpadded attr ++ post)) (pre.length + 2) =
        some (UInt16.ofNat attr.2.length) ∧
      readBytes (pre ++ (unpadded attr ++ post)) (pre.length + 4) attr.2.length =
        some attr.2 := by
  have htype := readU16_put16 pre (put16 (UInt16.ofNat attr.2.length) ++ (attr.2 ++ post))
    attr.1.code
  have hattrLen := readU16_put16 (pre ++ put16 attr.1.code) (attr.2 ++ post)
    (UInt16.ofNat attr.2.length)
  have hval := readBytes_append
    (pre ++ (put16 attr.1.code ++ put16 (UInt16.ofNat attr.2.length))) attr.2 post
  have hpre : (pre ++ put16 attr.1.code).length = pre.length + 2 := List.length_append
  have hpre' : (pre ++ (put16 attr.1.code ++ put16 (UInt16.ofNat attr.2.length))).length =
      pre.length + 4 := List.length_append
  rw [hpre] at hattrLen
  rw [hpre'] at hval
  simp only [List.append_assoc] at hattrLen hval
  simp only [unpadded, List.append_assoc]
  exact ⟨htype, hattrLen, hval⟩

/-- One round of the loop reads the attribute at the offset, and goes on behind its padding whatever
is there. -/
theorem parseAttrs_step (pre post : List UInt8) (attr : StunAttr × List UInt8)
    (hlen : attr.2.length < 65536) (fin : ℕ) (hfin : pre.length + 4 + attr.2.length ≤ fin)
    (attrs : List (StunAttr × List UInt8)) :
    parseAttrs (pre ++ (unpadded attr ++ post)) fin pre.length attrs =
      parseAttrs (pre ++ (unpadded attr ++ post)) fin
        (pre.length + 4 + attr.2.length + pad attr.2.length) (attrs ++ [attr]) := by
  have hsize : (UInt16.ofNat attr.2.length).toNat = attr.2.length := by
    rw [UInt16.toNat_ofNat', Nat.mod_eq_of_lt hlen]
  obtain ⟨htype, hattrLen, hval⟩ := read_unpadded pre post attr
  conv_lhs => rw [parseAttrs, if_pos (by omega), htype, hattrLen]
  dsimp only [Option.bind_eq_bind, Option.bind_some]
  rw [hsize, if_neg (by omega), hval]
  rfl

/-- Four bytes or more start with the type and the length of an attribute, whose value is there or
reaches over the end. -/
theorem exists_attr {body : List UInt8} (h : 4 ≤ body.length) :
    (∃ attrType attrLen tail, body = put16 attrType ++ (put16 attrLen ++ tail) ∧
        tail.length < attrLen.toNat) ∨
      ∃ attr rest, attr.2.length < 65536 ∧ body = unpadded attr ++ rest := by
  obtain ⟨attrType, tail, rfl⟩ := exists_put16 body (by omega)
  rw [List.length_append, show (put16 attrType).length = 2 from rfl] at h
  obtain ⟨attrLen, tail, rfl⟩ := exists_put16 tail (by omega)
  by_cases hover : tail.length < attrLen.toNat
  · exact Or.inl ⟨attrType, attrLen, tail, rfl, hover⟩
  · have hvalue : (tail.take attrLen.toNat).length = attrLen.toNat :=
      List.length_take_of_le (Nat.not_lt.1 hover)
    refine Or.inr ⟨(⟨attrType⟩, tail.take attrLen.toNat), tail.drop attrLen.toNat, ?_, ?_⟩
    · rw [hvalue]
      exact attrLen.toNat_lt
    · simp only [unpadded, hvalue, UInt16.ofNat_toNat, List.append_assoc, List.take_append_drop]

/-! ## The loop -/

/-- The loop ends when there is no room for another attribute. -/
theorem parseAttrs_end (data : List UInt8) {fin offset : ℕ} (h : fin < offset + 4)
    (attrs : List (StunAttr × List UInt8)) :
    parseAttrs data fin offset attrs = some (true, attrs) := by
  rw [parseAttrs, if_neg (Nat.not_le.2 h)]
  rfl

/-- An attribute that reaches over the end is rejected. -/
theorem parseAttrs_overrun (pre post : List UInt8) (attrType attrLen : UInt16) (fin : ℕ)
    (hroom : pre.length + 4 ≤ fin) (hover : fin < pre.length + 4 + attrLen.toNat)
    (attrs : List (StunAttr × List UInt8)) :
    parseAttrs (pre ++ (put16 attrType ++ (put16 attrLen ++ post))) fin pre.length attrs =
      some (false, attrs) := by
  have htype := readU16_put16 pre (put16 attrLen ++ post) attrType
  have hattrLen := readU16_put16 (pre ++ put16 attrType) post attrLen
  have hpre : (pre ++ put16 attrType).length = pre.length + 2 := List.length_append
  rw [hpre, List.append_assoc] at hattrLen
  rw [parseAttrs, if_pos hroom, htype, hattrLen]
  dsimp only [Option.bind_eq_bind, Option.bind_some]
  rw [if_pos hover]
  rfl

/-- A complete attribute is taken off the front of a body. -/
theorem parseAttrs_cons (pre post body : List UInt8) {attr : StunAttr × List UInt8}
    {padding : List UInt8} (hlen : attr.2.length < 65536)
    (hpad : padding.length = pad attr.2.length)
    (done : List (StunAttr × List UInt8)) :
    parseAttrs (pre ++ (unpadded attr ++ (padding ++ body) ++ post))
        (pre.length + (unpadded attr ++ (padding ++ body)).length) pre.length done =
      parseAttrs (pre ++ (unpadded attr ++ padding) ++ (body ++ post))
        ((pre ++ (unpadded attr ++ padding)).length + body.length)
        (pre ++ (unpadded attr ++ padding)).length (done ++ [attr]) := by
  have hstep := parseAttrs_step pre (padding ++ (body ++ post)) attr hlen
    (pre.length + (unpadded attr ++ (padding ++ body)).length)
    (by rw [List.length_append, length_unpadded]; omega) done
  simp only [List.length_append, length_unpadded, hpad, ← Nat.add_assoc] at hstep
  simp only [List.length_append, length_unpadded, List.append_assoc, hpad, ← Nat.add_assoc]
  exact hstep

/-- The loop accepts a body and finds its attributes. -/
theorem Body.parseAttrs {body : List UInt8} {attrs : List (StunAttr × List UInt8)}
    (h : Body body attrs) (pre post : List UInt8) (done : List (StunAttr × List UInt8)) :
    StunMessage.parseAttrs (pre ++ (body ++ post)) (pre.length + body.length) pre.length done =
      some (true, done ++ attrs) := by
  induction h generalizing pre done with
  | spare hrest =>
      rw [List.append_nil]
      exact parseAttrs_end _ (by omega) done
  | cut hlen hpad =>
      -- the next attribute would start behind the end
      rw [List.append_assoc, parseAttrs_step pre _ _ hlen _ (by
        rw [List.length_append, length_unpadded]; omega)]
      apply parseAttrs_end
      rw [List.length_append, length_unpadded]
      omega
  | cons hlen hpad _ ih => rw [parseAttrs_cons pre post _ hlen hpad, ih, List.append_assoc,
      List.singleton_append]

/-- The loop refuses an overrun, with the attributes in front of it. -/
theorem Overrun.parseAttrs {body : List UInt8} {attrs : List (StunAttr × List UInt8)}
    (h : Overrun body attrs) (pre post : List UInt8) (done : List (StunAttr × List UInt8)) :
    StunMessage.parseAttrs (pre ++ (body ++ post)) (pre.length + body.length) pre.length done =
      some (false, done ++ attrs) := by
  induction h generalizing pre done with
  | here attrType attrLen hover =>
      rename_i tail
      have htail : (put16 attrType ++ (put16 attrLen ++ tail)).length = 4 + tail.length := by
        rw [List.length_append, List.length_append, ← Nat.add_assoc]
        rfl
      rw [htail, List.append_assoc, List.append_assoc, List.append_nil]
      exact parseAttrs_overrun pre (tail ++ post) attrType attrLen _ (by omega) (by omega) done
  | cons hlen hpad _ ih => rw [parseAttrs_cons pre post _ hlen hpad, ih, List.append_assoc,
      List.singleton_append]

/-- Every string is a body, or one of its attributes reaches over the end. -/
theorem body_or_overrun (body : List UInt8) : ∃ attrs, Body body attrs ∨ Overrun body attrs := by
  -- what is left behind an attribute is shorter
  induction hn : body.length using Nat.strong_induction_on generalizing body with
  | _ n ih =>
      by_cases hshort : body.length < 4
      · exact ⟨[], Or.inl (.spare hshort)⟩
      rcases exists_attr (Nat.not_lt.1 hshort) with
        ⟨attrType, attrLen, tail, rfl, hover⟩ | ⟨attr, rest, hlen, rfl⟩
      · exact ⟨[], Or.inr (.here attrType attrLen hover)⟩
      by_cases hcut : rest.length < pad attr.2.length
      · exact ⟨[attr], Or.inl (.cut hlen hcut)⟩
      -- the padding is complete
      have hpad : (rest.take (pad attr.2.length)).length = pad attr.2.length :=
        List.length_take_of_le (Nat.not_lt.1 hcut)
      have hless : (rest.drop (pad attr.2.length)).length < n := by
        rw [← hn, List.length_append, length_unpadded, List.length_drop]
        omega
      obtain ⟨attrs, hrest⟩ := ih _ hless (rest.drop (pad attr.2.length)) rfl
      rw [← List.take_append_drop (pad attr.2.length) rest]
      exact ⟨attr :: attrs, hrest.imp (.cons hlen hpad) (.cons hlen hpad)⟩

/-- What the loop does with a string depends on nothing around it, and it accepts only bodies. -/
theorem exists_scan (body : List UInt8) :
    ∃ ok attrs, (ok = true → Body body attrs) ∧
      ∀ pre post done, StunMessage.parseAttrs (pre ++ (body ++ post)) (pre.length + body.length)
        pre.length done = some (ok, done ++ attrs) := by
  obtain ⟨attrs, hbody | hover⟩ := body_or_overrun body
  · exact ⟨true, attrs, fun _ => hbody, hbody.parseAttrs⟩
  · exact ⟨false, attrs, fun hok => absurd hok Bool.false_ne_true, hover.parseAttrs⟩

/-- The outcome of the loop is the only list of attributes that the string can hold. -/
theorem exists_scan_iff (body : List UInt8) :
    ∃ ok attrs, (∀ attrs', Body body attrs' ↔ ok = true ∧ attrs = attrs') ∧
      ∀ pre post done, StunMessage.parseAttrs (pre ++ (body ++ post)) (pre.length + body.length)
        pre.length done = some (ok, done ++ attrs) := by
  obtain ⟨ok, attrs, hok, hscan⟩ := exists_scan body
  refine ⟨ok, attrs, fun attrs' => ⟨fun hbody => ?_, ?_⟩, hscan⟩
  · have hsame := Option.some.inj ((hscan [] [] []).symm.trans (hbody.parseAttrs [] [] []))
    exact ⟨congrArg Prod.fst hsame, congrArg Prod.snd hsame⟩
  · rintro ⟨htrue, rfl⟩
    exact hok htrue

/-! ## The header -/

/-- The fields of the header at the start of a buffer. -/
structure Fields (data : List UInt8) (first : UInt8) (type msgLen : UInt16) (cookie : UInt32)
    (tid : TransactionId) : Prop where
  first : data[0]? = some first
  type : readU16 data 0 = some type
  msgLen : readU16 data 2 = some msgLen
  cookie : readU32 data 4 = some cookie
  tid : readVector data 8 12 = some tid

/-- Twenty bytes are a header of some fields. -/
theorem exists_fields {hdr : List UInt8} (h : hdr.length = 20) :
    ∃ first type msgLen cookie tid, Fields hdr first type msgLen cookie tid := by
  obtain ⟨first, hfirst⟩ := exists_getElem? (show 0 < hdr.length by omega)
  obtain ⟨type, htype⟩ := exists_readU16 (show 0 + 2 ≤ hdr.length by omega)
  obtain ⟨msgLen, hmsgLen⟩ := exists_readU16 (show 2 + 2 ≤ hdr.length by omega)
  obtain ⟨cookie, hcookie⟩ := exists_readU32 (show 4 + 4 ≤ hdr.length by omega)
  obtain ⟨tid, htid⟩ := exists_readVector (show 8 + 12 ≤ hdr.length by omega)
  exact ⟨first, type, msgLen, cookie, tid, hfirst, htype, hmsgLen, hcookie, htid⟩

section Header

variable {hdr : List UInt8} {first : UInt8} {type msgLen : UInt16} {cookie : UInt32}
  {tid : TransactionId}

/-- The fields are the same when more bytes follow. -/
theorem Fields.append (h : Fields hdr first type msgLen cookie tid) (hlen : hdr.length = 20)
    (tail : List UInt8) : Fields (hdr ++ tail) first type msgLen cookie tid where
  first := (List.getElem?_append_left (by omega)).trans h.first
  type := (readU16_append_left tail (by omega)).trans h.type
  msgLen := (readU16_append_left tail (by omega)).trans h.msgLen
  cookie := (readU32_append_left tail (by omega)).trans h.cookie
  tid := (readVector_append_left tail (by omega)).trans h.tid

variable (m : StunMessage) (h : Fields hdr first type msgLen cookie tid) (hlen : hdr.length = 20)
  (tail : List UInt8)

include h hlen

theorem parse_of_bad_header (hbad : cookie ≠ stunMagicCookie ∨ first &&& 0xC0 ≠ 0) :
    m.parse (hdr ++ tail) = some (false, m) := by
  have hfields := h.append hlen tail
  rw [parse, if_neg (by rw [List.length_append]; omega), hfields.cookie, hfields.first]
  dsimp only [Option.bind_eq_bind, Option.bind_some]
  by_cases hcookie : cookie = stunMagicCookie
  · rw [if_neg (not_not.2 hcookie), if_pos (hbad.resolve_left (not_not.2 hcookie))]
    rfl
  · rw [if_pos hcookie]
    rfl

/-- Behind a good header the length is compared and the loop runs. -/
theorem parse_of_header (hcookie : cookie = stunMagicCookie) (hfirst : first &&& 0xC0 = 0) :
    m.parse (hdr ++ tail) =
      if tail.length < msgLen.toNat then some (false, ⟨⟨type⟩, tid, []⟩)
      else (StunMessage.parseAttrs (hdr ++ tail) (20 + msgLen.toNat) 20 []).map
        fun r => (r.1, ⟨⟨type⟩, tid, r.2⟩) := by
  have hfields := h.append hlen tail
  have htotal : (hdr ++ tail).length = 20 + tail.length := by rw [List.length_append, hlen]
  rw [parse, if_neg (by omega), hfields.cookie, hfields.first, hfields.type, hfields.msgLen,
    hfields.tid, htotal]
  dsimp only [Option.bind_eq_bind, Option.bind_some]
  rw [if_neg (not_not.2 hcookie), if_neg (not_not.2 hfirst)]
  by_cases hcut : tail.length < msgLen.toNat
  · rw [if_pos (by omega), if_pos hcut]
    rfl
  · rw [if_neg (by omega), if_neg hcut, Option.map_eq_bind]
    rfl

end Header

/-- An accepted message has the fields of its header. -/
theorem Accepted.fields {data : List UInt8} {first : UInt8} {type msgLen msgLen' : UInt16}
    {cookie : UInt32} {tid : TransactionId} {attrs : List (StunAttr × List UInt8)}
    (h : Accepted data msgLen' attrs) (hfields : Fields data first type msgLen cookie tid) :
    msgLen' = msgLen ∧ cookie = stunMagicCookie ∧ first &&& 0xC0 = 0 := by
  obtain ⟨first', hfirst', hclear⟩ := h.topBits
  refine ⟨Option.some.inj (h.declared.symm.trans hfields.msgLen),
    Option.some.inj (hfields.cookie.symm.trans h.cookie), ?_⟩
  rwa [Option.some.inj (hfields.first.symm.trans hfirst')]

/-- A buffer that is cut in its body keeps its header. -/
theorem take_header {hdr : List UInt8} (hlen : hdr.length = 20) (tail : List UInt8) (n : ℕ) :
    (hdr ++ tail).take (20 + n) = hdr ++ tail.take n := by
  rw [← hlen, List.take_length_add_append]

/-! ## What `parse` accepts -/

/-- `parse` returns `ok` and leaves `result`; it accepts exactly the messages of the grammar, whose
fields it stores, and the bytes behind the declared end play no part, present or not. -/
structure Outcome (m : StunMessage) (data : List UInt8) (ok : Bool) (result : StunMessage) :
    Prop where
  returns : m.parse data = some (ok, result)
  accepts : ok = true ↔ ∃ msgLen attrs, Accepted data msgLen attrs
  stores : ∀ msgLen attrs, Accepted data msgLen attrs →
    readU16 data 0 = some result.type.code ∧
      readVector data 8 12 = some result.transactionId ∧ result.attrs = attrs
  extent : ∀ msgLen other, readU16 data 2 = some msgLen → 20 + msgLen.toNat ≤ data.length →
    m.parse (data.take (20 + msgLen.toNat) ++ other) = some (ok, result)

/-- A buffer that is rejected and no message of the grammar. -/
theorem Outcome.rejected {m : StunMessage} {data : List UInt8} {result : StunMessage}
    (hparse : m.parse data = some (false, result))
    (hno : ∀ msgLen attrs, ¬ Accepted data msgLen attrs)
    (hextent : ∀ msgLen other, readU16 data 2 = some msgLen → 20 + msgLen.toNat ≤ data.length →
      m.parse (data.take (20 + msgLen.toNat) ++ other) = some (false, result)) :
    Outcome m data false result where
  returns := hparse
  accepts := iff_of_false nofun fun ⟨msgLen, attrs, h⟩ => hno msgLen attrs h
  stores msgLen attrs h := absurd h (hno msgLen attrs)
  extent := hextent

variable (m : StunMessage)

theorem outcome_of_short {data : List UInt8} (h : data.length < 20) : Outcome m data false m := by
  apply Outcome.rejected
  · rw [parse, if_pos h]
    rfl
  · intro msgLen attrs haccepted
    have hcomplete := haccepted.complete
    omega
  · intro msgLen other _ hcomplete
    omega

section Header

variable {hdr : List UInt8} {first : UInt8} {type msgLen : UInt16} {cookie : UInt32}
  {tid : TransactionId} (h : Fields hdr first type msgLen cookie tid) (hlen : hdr.length = 20)
  (tail : List UInt8)

include h hlen

theorem outcome_of_bad_header (hbad : cookie ≠ stunMagicCookie ∨ first &&& 0xC0 ≠ 0) :
    Outcome m (hdr ++ tail) false m := by
  apply Outcome.rejected (parse_of_bad_header m h hlen tail hbad)
  · intro msgLen' attrs haccepted
    obtain ⟨-, hcookie, hfirst⟩ := haccepted.fields (h.append hlen tail)
    exact hbad.elim (fun hne => hne hcookie) fun hne => hne hfirst
  · intro msgLen' other _ _
    rw [take_header hlen, List.append_assoc]
    exact parse_of_bad_header m h hlen _ hbad

variable (hcookie : cookie = stunMagicCookie) (hfirst : first &&& 0xC0 = 0)

include hcookie hfirst

theorem outcome_of_incomplete (hcut : tail.length < msgLen.toNat) :
    Outcome m (hdr ++ tail) false ⟨⟨type⟩, tid, []⟩ := by
  have hincomplete : ¬ 20 + msgLen.toNat ≤ (hdr ++ tail).length := by
    rw [List.length_append]
    omega
  apply Outcome.rejected
  · rw [parse_of_header m h hlen tail hcookie hfirst, if_pos hcut]
  · intro msgLen' attrs haccepted
    obtain ⟨rfl, -, -⟩ := haccepted.fields (h.append hlen tail)
    exact hincomplete haccepted.complete
  · intro msgLen' other hdeclared hcomplete
    obtain rfl := Option.some.inj ((h.append hlen tail).msgLen.symm.trans hdeclared)
    exact absurd hcomplete hincomplete

/-- When the whole body is there, the loop decides. -/
theorem outcome_of_complete (hcomplete : msgLen.toNat ≤ tail.length) :
    ∃ ok attrs, Outcome m (hdr ++ tail) ok ⟨⟨type⟩, tid, attrs⟩ := by
  have hbody : (tail.take msgLen.toNat).length = msgLen.toNat := List.length_take_of_le hcomplete
  have hfields := h.append hlen tail
  obtain ⟨ok, attrs, hok, hscan⟩ := exists_scan_iff (tail.take msgLen.toNat)
  -- what comes behind the declared body does not matter
  have hparse (post : List UInt8) : m.parse (hdr ++ (tail.take msgLen.toNat ++ post)) =
      some (ok, ⟨⟨type⟩, tid, attrs⟩) := by
    have hloop := hscan hdr post []
    rw [hlen, hbody, List.nil_append] at hloop
    rw [parse_of_header m h hlen _ hcookie hfirst, if_neg (by rw [List.length_append]; omega),
      hloop]
    rfl
  -- the body of any message here is the one that was scanned
  have haccepted (attrs' : List (StunAttr × List UInt8)) :
      Body (((hdr ++ tail).drop 20).take msgLen.toNat) attrs' ↔ ok = true ∧ attrs = attrs' := by
    rw [List.drop_left' hlen]
    exact hok attrs'
  refine ⟨ok, attrs, ⟨?_, ⟨fun htrue => ⟨msgLen, attrs, ?_⟩, ?_⟩, ?_, ?_⟩⟩
  · have hwhole := hparse (tail.drop msgLen.toNat)
    rwa [List.take_append_drop] at hwhole
  · exact ⟨hfields.msgLen, by rw [List.length_append]; omega, ⟨first, hfields.first, hfirst⟩,
      hcookie ▸ hfields.cookie, (haccepted attrs).2 ⟨htrue, rfl⟩⟩
  · -- the header declares the length, so any message here has it
    rintro ⟨msgLen', attrs', hmsg⟩
    obtain ⟨rfl, -, -⟩ := hmsg.fields hfields
    exact ((haccepted attrs').1 hmsg.body).1
  · intro msgLen' attrs' hmsg
    obtain ⟨rfl, -, -⟩ := hmsg.fields hfields
    exact ⟨hfields.type, hfields.tid, ((haccepted attrs').1 hmsg.body).2⟩
  · intro msgLen' other hdeclared _
    obtain rfl := Option.some.inj (hfields.msgLen.symm.trans hdeclared)
    rw [take_header hlen, List.append_assoc]
    exact hparse other

end Header

/-- On every buffer `parse` returns, and it accepts the messages of the grammar. -/
theorem parse_outcome (data : List UInt8) : ∃ ok result, Outcome m data ok result := by
  by_cases hshort : data.length < 20
  · exact ⟨false, m, outcome_of_short m hshort⟩
  have hlen : (data.take 20).length = 20 := List.length_take_of_le (Nat.not_lt.1 hshort)
  obtain ⟨first, type, msgLen, cookie, tid, hhdr⟩ := exists_fields hlen
  rw [← List.take_append_drop 20 data]
  by_cases hbad : cookie ≠ stunMagicCookie ∨ first &&& 0xC0 ≠ 0
  · exact ⟨false, m, outcome_of_bad_header m hhdr hlen _ hbad⟩
  rw [not_or, not_not, not_not] at hbad
  obtain ⟨hcookie, hfirst⟩ := hbad
  by_cases hcut : (data.drop 20).length < msgLen.toNat
  · exact ⟨false, _, outcome_of_incomplete m hhdr hlen _ hcookie hfirst hcut⟩
  · obtain ⟨ok, attrs, houtcome⟩ :=
      outcome_of_complete m hhdr hlen _ hcookie hfirst (Nat.not_lt.1 hcut)
    exact ⟨ok, _, houtcome⟩

end CppMeet.Ice.Grammar
