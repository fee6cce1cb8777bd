import CppMeet.Video.Packetizer

/-!
# Packets of a stream of NAL units reassemble

`receive` takes the payloads in order and rebuilds the units as an RFC 6184 receiver does; it fails
on a payload that does not fit in. `Fragments` describes the packets that the loop of
`makeFuaPackets` produces (`fragments_fuaLoop`), and the properties of the packets of one unit
follow by induction on it. `UnitOk` collects them, and the whole stream is an induction over its
units.
-/

set_option autoImplicit false

namespace CppMeet.Video.Reassembly

open CppMeet.Rtp.Packet CppMeet.Video.Packetizer

/-! ## The units and the receiver -/

/-- What may stand in front of a unit. -/
inductive StartCode where
  | absent
  | three
  | four

/-- The bytes in front of the unit. -/
def StartCode.bytes : StartCode → List UInt8
  | .absent => []
  | .three => [0, 0, 1]
  | .four => [0, 0, 0, 1]

/-- An Annex B unit: its bytes are empty or begin with a header of a type from 1 to 23. -/
structure AnnexB where
  startCode : StartCode
  body : List UInt8
  type_ok : ∀ header ∈ body.head?, 1 ≤ header &&& 0x1F ∧ header &&& 0x1F ≤ 23

/-- The unit as the encoder hands it over, start code and all. -/
def AnnexB.toNalUnit (nal : AnnexB) : NalUnit := ⟨nal.startCode.bytes ++ nal.body⟩

/-- What the packetizer is called with, for units with their timestamps. -/
def nalUnits (nals : List (UInt32 × AnnexB)) : List (UInt32 × NalUnit) :=
  nals.map fun nal => (nal.1, nal.2.toNalUnit)

/-- The bytes of the units. -/
def bodies (nals : List (UInt32 × AnnexB)) : List (List UInt8) := nals.map fun nal => nal.2.body

theorem nalUnits_cons (ts : UInt32) (nal : AnnexB) (nals : List (UInt32 × AnnexB)) :
    nalUnits ((ts, nal) :: nals) = (ts, nal.toNalUnit) :: nalUnits nals := rfl

theorem bodies_cons (ts : UInt32) (nal : AnnexB) (nals : List (UInt32 × AnnexB)) :
    bodies ((ts, nal) :: nals) = nal.body :: bodies nals := rfl

/-- The units rebuilt so far, and the fragments of a unit of which the last one is missing. -/
structure Assembly where
  nals : List (List UInt8) := []
  pending : Option (List UInt8) := none

/-- A fragment begins a unit or continues the one that is pending. -/
def receiveFragment (a : Assembly) (indicator header : UInt8) (fragment : List UInt8) :
    Option Assembly := do
  -- the S bit and nothing else begins a unit
  let nal ←
    match a.pending, decide (header &&& 0x80 ≠ 0) with
    | none, true => some (((indicator &&& 0xE0) ||| (header &&& 0x1F)) :: fragment)
    | some nal, false => some (nal ++ fragment)
    | _, _ => none
  -- the E bit completes it
  if header &&& 0x40 ≠ 0 then return { nals := a.nals ++ [nal], pending := none }
  else return { a with pending := some nal }

/-- Takes the payload of the next packet. -/
def receive (a : Assembly) : List UInt8 → Option Assembly
  | [] => none
  | header :: body =>
      if header &&& 0x1F = 28 then
        match body with
        | [] => none
        | fuHeader :: fragment => receiveFragment a header fuHeader fragment
      else if a.pending.isNone then some { a with nals := a.nals ++ [header :: body] }
      -- a whole unit must not come inside a fragmented one
      else none

/-- The units of a stream of packets in which no unit is left unfinished. -/
def reassemble (pkts : List RtpPacket) : Option (List (List UInt8)) := do
  let a ← (pkts.map RtpPacket.payload).foldlM receive {}
  if a.pending.isNone then some a.nals else none

/-! ## Header bytes -/

/-- The flags and the type are read back from the FU header. -/
theorem fuHeader_bits (header : UInt8) (first last : Bool) :
    (fuHeader (header &&& 0x1F) first last &&& 0x80 ≠ 0 ↔ first = true) ∧
      (fuHeader (header &&& 0x1F) first last &&& 0x40 ≠ 0 ↔ last = true) ∧
      fuHeader (header &&& 0x1F) first last &&& 0x1F = header &&& 0x1F := by
  have hbyte : ∀ n < 256, ∀ first last : Bool,
      (fuHeader (UInt8.ofNat n &&& 0x1F) first last &&& 0x80 ≠ 0 ↔ first = true) ∧
        (fuHeader (UInt8.ofNat n &&& 0x1F) first last &&& 0x40 ≠ 0 ↔ last = true) ∧
        fuHeader (UInt8.ofNat n &&& 0x1F) first last &&& 0x1F = UInt8.ofNat n &&& 0x1F := by
    decide +kernel
  have h := hbyte header.toNat header.toNat_lt first last
  rwa [UInt8.ofNat_toNat] at h

/-- The indicator announces a fragment and keeps the upper bits of the unit's header. -/
theorem fuIndicator_bits (header : UInt8) :
    ((header &&& 0xE0) ||| 28) &&& 0x1F = 28 ∧
      ((((header &&& 0xE0) ||| 28) &&& 0xE0) ||| (header &&& 0x1F)) = header := by
  have hbyte : ∀ n < 256, ((UInt8.ofNat n &&& 0xE0) ||| 28) &&& 0x1F = 28 ∧
      ((((UInt8.ofNat n &&& 0xE0) ||| 28) &&& 0xE0) ||| (UInt8.ofNat n &&& 0x1F)) =
        UInt8.ofNat n := by
    decide +kernel
  have h := hbyte header.toNat header.toNat_lt
  rwa [UInt8.ofNat_toNat] at h

section Unit

variable (pt : UInt8) (ts ssrc : UInt32)

/-! ## The fragments of one unit -/

/-- The packets for the bytes `src` of a unit with the given header: full fragments and a last one
of at most the same size. -/
inductive Fragments (header : UInt8) : List UInt8 → Bool → UInt16 → List RtpPacket → Prop
  | last {src : List UInt8} {first : Bool} {seq : UInt16} :
      src.length ≤ 1198 →
      Fragments header src first seq
        [RtpPacket.build pt seq ts ssrc
          (((header &&& 0xE0) ||| 28) :: fuHeader (header &&& 0x1F) first true :: src) true]
  | more {chunk src : List UInt8} {first : Bool} {seq : UInt16} {pkts : List RtpPacket} :
      chunk.length = 1198 → Fragments header src false (seq + 1) pkts →
      Fragments header (chunk ++ src) first seq
        (RtpPacket.build pt seq ts ssrc
          (((header &&& 0xE0) ||| 28) :: fuHeader (header &&& 0x1F) first false :: chunk) false ::
          pkts)

theorem fragments_fuaLoop (header : UInt8) {src : List UInt8} (hne : src ≠ []) (first : Bool)
    (seq : UInt16) :
    Fragments pt ts ssrc header src first seq (fuaLoop pt ts ssrc ((header &&& 0xE0) ||| 28)
      (header &&& 0x1F) src first seq).1 := by
  fun_induction fuaLoop pt ts ssrc ((header &&& 0xE0) ||| 28) (header &&& 0x1F) src first seq with
  | case1 => exact absurd rfl hne
  | case2 src first seq _ chunk last payload pkt rest ih =>
      rcases Nat.lt_or_ge 1198 src.length with hlong | hshort
      · -- a full fragment, and the loop goes on behind it
        have hchunk : chunk = 1198 := by
          simp only [chunk, maxRtpPayload]
          omega
        have hlast : last = false := decide_eq_false (by omega)
        have hdrop : src.drop chunk ≠ [] := by
          apply List.ne_nil_of_length_pos
          rw [List.length_drop]
          omega
        have htake : (src.take chunk).length = 1198 := by
          rw [List.length_take]
          omega
        have hmore : Fragments pt ts ssrc header (src.take chunk ++ src.drop chunk) first seq _ :=
          Fragments.more htake (ih hdrop)
        rw [List.take_append_drop] at hmore
        simp only [pkt, payload, hlast]
        exact hmore
      · -- the last fragment takes all that is left
        have hchunk : chunk = src.length := by
          simp only [chunk, maxRtpPayload]
          omega
        have hlast : last = true := decide_eq_true hchunk
        have hrest : rest.1 = [] := by
          simp only [rest, hchunk, List.drop_length]
          rw [fuaLoop]
          rfl
        have htake : src.take chunk = src := by rw [hchunk, List.take_length]
        simp only [pkt, payload, hlast, hrest, htake]
        exact Fragments.last hshort

/-- The only packet of a list of one. -/
theorem eq_of_getElem?_singleton {p pkt : RtpPacket} {i : ℕ} (h : [p][i]? = some pkt) :
    i = 0 ∧ pkt = p := by
  rw [List.getElem?_singleton] at h
  split at h
  · rename_i hi
    exact ⟨hi, (Option.some.inj h).symm⟩
  · cases h

theorem add_ofNat_succ (seq : UInt16) (i : ℕ) :
    seq + UInt16.ofNat (i + 1) = seq + 1 + UInt16.ofNat i := by
  rw [UInt16.ofNat_add, UInt16.add_comm (UInt16.ofNat i), ← UInt16.add_assoc]
  rfl

/-- The sequence number behind the fragments. -/
theorem snd_fuaLoop (indicator nalType : UInt8) (src : List UInt8) (first : Bool) (seq : UInt16) :
    (fuaLoop pt ts ssrc indicator nalType src first seq).2 =
      seq + UInt16.ofNat (fuaLoop pt ts ssrc indicator nalType src first seq).1.length := by
  fun_induction fuaLoop pt ts ssrc indicator nalType src first seq with
  | case1 => simp
  | case2 src first seq _ chunk last payload pkt rest ih =>
      rw [List.length_cons, add_ofNat_succ]
      exact ih

/-- What the receiver does with a fragment, given the bytes `nal` of the unit before it. -/
theorem receive_fragment (header : UInt8) (first last : Bool) (fragment nal : List UInt8)
    (a : Assembly) (hfirst : first = true → a.pending = none ∧ nal = [header])
    (hnext : first = false → a.pending = some nal) :
    receive a (((header &&& 0xE0) ||| 28) :: fuHeader (header &&& 0x1F) first last :: fragment) =
      some (if last = true then { nals := a.nals ++ [nal ++ fragment], pending := none }
        else { a with pending := some (nal ++ fragment) }) := by
  obtain ⟨hfu, hheader⟩ := fuIndicator_bits header
  obtain ⟨hstart, hend, htype⟩ := fuHeader_bits header first last
  rw [receive, if_pos hfu, receiveFragment]
  simp only [hstart, hend, htype, hheader]
  cases first with
  | true =>
      obtain ⟨hpending, rfl⟩ := hfirst rfl
      rw [hpending]
      cases last <;> rfl
  | false =>
      rw [hnext rfl]
      cases last <;> rfl

/-- A unit that is not a fragment is taken as it is. -/
theorem receive_whole {header : UInt8} {body : List UInt8} {a : Assembly}
    (htype : header &&& 0x1F ≠ 28) (hpending : a.pending = none) :
    receive a (header :: body) = some { a with nals := a.nals ++ [header :: body] } := by
  simp only [receive, if_neg htype, hpending]
  rfl

/-- An FU-A payload with both the S and the E bit. -/
def StartsAndEnds (payload : List UInt8) : Prop :=
  payload.getD 0 0 &&& 0x1F = 28 ∧ payload.getD 1 0 &&& 0x80 ≠ 0 ∧ payload.getD 1 0 &&& 0x40 ≠ 0

/-- What holds of the packets of one unit that begin at `seq`. -/
structure UnitOk (body : List UInt8) (seq : UInt16) (pkts : List RtpPacket) : Prop where
  size : ∀ pkt ∈ pkts, pkt.payload.length ≤ maxRtpPayload
  sequence : ∀ i pkt, pkts[i]? = some pkt → pkt.sequence = seq + UInt16.ofNat i
  marker : ∀ i pkt, pkts[i]? = some pkt → (pkt.marker = true ↔ i + 1 = pkts.length)
  flags : ∀ pkt ∈ pkts, ¬StartsAndEnds pkt.payload
  receive : ∀ a : Assembly, a.pending = none → (pkts.map RtpPacket.payload).foldlM receive a =
    some { a with nals := a.nals ++ if body = [] then [] else [body] }

section Fragments

variable {pt ts ssrc} {header : UInt8} {src : List UInt8} {first : Bool} {seq : UInt16}
  {pkts : List RtpPacket} (h : Fragments pt ts ssrc header src first seq pkts)

include h

theorem Fragments.size : ∀ pkt ∈ pkts, pkt.payload.length ≤ maxRtpPayload := by
  induction h with
  | last hle =>
      intro pkt hpkt
      obtain rfl := List.mem_singleton.1 hpkt
      exact Nat.add_le_add_right hle 2
  | more hchunk _ ih =>
      intro pkt hpkt
      rcases List.mem_cons.1 hpkt with rfl | hmem
      · exact Nat.add_le_add_right (Nat.le_of_eq hchunk) 2
      · exact ih pkt hmem

theorem Fragments.ne_nil : pkts ≠ [] := by
  cases h with
  | last _ => exact List.cons_ne_nil _ _
  | more _ _ => exact List.cons_ne_nil _ _

/-- The fragments are numbered without a gap. -/
theorem Fragments.sequence :
    ∀ i pkt, pkts[i]? = some pkt → pkt.sequence = seq + UInt16.ofNat i := by
  induction h with
  | last _ =>
      intro i pkt hpkt
      obtain ⟨rfl, rfl⟩ := eq_of_getElem?_singleton hpkt
      rw [RtpPacket.build_sequence]
      exact (UInt16.add_zero _).symm
  | @more _ _ _ seq _ _ _ ih =>
      intro i pkt hpkt
      cases i with
      | zero =>
          rw [← Option.some.inj hpkt, RtpPacket.build_sequence]
          exact (UInt16.add_zero _).symm
      | succ i =>
          rw [ih i pkt hpkt]
          exact (add_ofNat_succ seq i).symm

theorem Fragments.marker :
    ∀ i pkt, pkts[i]? = some pkt → (pkt.marker = true ↔ i + 1 = pkts.length) := by
  induction h with
  | last _ =>
      intro i pkt hpkt
      obtain ⟨rfl, rfl⟩ := eq_of_getElem?_singleton hpkt
      rw [RtpPacket.build_marker]
      exact iff_of_true rfl rfl
  | more _ hrest ih =>
      intro i pkt hpkt
      cases i with
      | zero =>
          have hpos := List.length_pos_iff.2 hrest.ne_nil
          rw [← Option.some.inj hpkt, RtpPacket.build_marker, List.length_cons]
          exact iff_of_false Bool.false_ne_true (by omega)
      | succ i => rw [ih i pkt hpkt, List.length_cons, Nat.add_right_cancel_iff]

/-- A unit of more than one fragment has no fragment that is both the first and the last. -/
theorem Fragments.flags (hlong : first = true → 1198 < src.length) :
    ∀ pkt ∈ pkts, ¬StartsAndEnds pkt.payload := by
  induction h with
  | @last src first _ hle =>
      -- this fragment has the E bit; with the S bit it would be the whole unit
      intro pkt hpkt
      obtain rfl := List.mem_singleton.1 hpkt
      rintro ⟨_, hstart, _⟩
      have hfirst := (fuHeader_bits header first true).1.1 hstart
      exact Nat.not_lt_of_le hle (hlong hfirst)
  | @more _ _ first _ _ _ _ ih =>
      intro pkt hpkt
      rcases List.mem_cons.1 hpkt with rfl | hmem
      · rintro ⟨_, _, hend⟩
        exact Bool.false_ne_true ((fuHeader_bits header first false).2.1.1 hend)
      · exact ih (fun hfirst => absurd hfirst Bool.false_ne_true) pkt hmem

/-- The fragments are put together to the unit. -/
theorem Fragments.receive (a : Assembly) (nal : List UInt8)
    (hfirst : first = true → a.pending = none ∧ nal = [header])
    (hnext : first = false → a.pending = some nal) :
    (pkts.map RtpPacket.payload).foldlM Reassembly.receive a =
      some { nals := a.nals ++ [nal ++ src], pending := none } := by
  induction h generalizing a nal with
  | last _ =>
      rw [List.map_singleton, List.foldlM_cons, RtpPacket.build_payload,
        receive_fragment header _ true _ nal a hfirst hnext, if_pos rfl]
      rfl
  | more _ _ ih =>
      rw [List.map_cons, List.foldlM_cons, RtpPacket.build_payload,
        receive_fragment header _ false _ nal a hfirst hnext, if_neg Bool.false_ne_true]
      dsimp only [Option.bind_eq_bind, Option.bind_some]
      rw [ih _ _ (fun hfirst => absurd hfirst Bool.false_ne_true) (fun _ => rfl),
        List.append_assoc]

end Fragments

/-! ## The packets of one unit -/

theorem skipStartCode_toNalUnit (nal : AnnexB) : skipStartCode nal.toNalUnit.data = nal.body := by
  rcases nal with ⟨startCode, body, htype⟩
  cases startCode with
  | four =>
      change skipStartCode (0 :: 0 :: 0 :: 1 :: body) = body
      rw [skipStartCode, if_pos ⟨by simp, rfl, rfl, rfl, rfl⟩]
      rfl
  | three =>
      change skipStartCode (0 :: 0 :: 1 :: body) = body
      have hthird : ((0 :: 0 :: 1 :: body : List UInt8).getD 2 0 : UInt8) ≠ 0 :=
        show (1 : UInt8) ≠ 0 by decide
      rw [skipStartCode, if_neg (fun h => hthird h.2.2.2.1), if_pos ⟨by simp, rfl, rfl, rfl⟩]
      rfl
  | absent =>
      change skipStartCode body = body
      cases body with
      | nil => rfl
      | cons header body =>
          -- a header of type 0 is the only one that could pass for a start code
          have hheader : ((header :: body).getD 0 0 : UInt8) ≠ 0 := by
            rintro (rfl : header = 0)
            exact absurd (htype 0 rfl).1 (by decide)
          rw [skipStartCode, if_neg (fun h => hheader h.2.1), if_neg (fun h => hheader h.2.1)]

theorem unitOk_nil (seq : UInt16) : UnitOk [] seq [] where
  size _ h := absurd h List.not_mem_nil
  sequence _ _ h := by cases h
  marker _ _ h := by cases h
  flags _ h := absurd h List.not_mem_nil
  receive a _ := by
    rw [if_pos rfl, List.append_nil]
    rfl

theorem unitOk_single {header : UInt8} {body : List UInt8} (hle : (header :: body).length ≤ 1200)
    (htype : header &&& 0x1F ≠ 28) (seq : UInt16) :
    UnitOk (header :: body) seq [RtpPacket.build pt seq ts ssrc (header :: body) true] where
  size pkt h := by
    obtain rfl := List.mem_singleton.1 h
    exact hle
  sequence i pkt h := by
    obtain ⟨rfl, rfl⟩ := eq_of_getElem?_singleton h
    rw [RtpPacket.build_sequence]
    exact (UInt16.add_zero _).symm
  marker i pkt h := by
    obtain ⟨rfl, rfl⟩ := eq_of_getElem?_singleton h
    rw [RtpPacket.build_marker]
    exact iff_of_true rfl rfl
  flags pkt h := by
    obtain rfl := List.mem_singleton.1 h
    exact fun hflags => htype hflags.1
  receive a hpending := by
    rw [List.map_singleton, List.foldlM_cons, RtpPacket.build_payload,
      receive_whole htype hpending, if_neg (List.cons_ne_nil _ _)]
    rfl

theorem unitOk_fragments {header : UInt8} {src : List UInt8} (hlong : 1198 < src.length)
    {seq : UInt16} {pkts : List RtpPacket} (h : Fragments pt ts ssrc header src true seq pkts) :
    UnitOk (header :: src) seq pkts where
  size := h.size
  sequence := h.sequence
  marker := h.marker
  flags := h.flags fun _ => hlong
  receive a hpending := by
    have hreceive := h.receive a [header] (fun _ => ⟨hpending, rfl⟩)
      (fun hfirst => absurd hfirst.symm Bool.false_ne_true)
    rw [hreceive, if_neg (List.cons_ne_nil _ _), hpending, List.singleton_append]

/-- The packets of a unit, and the number behind them. -/
theorem packetize_toNalUnit (nal : AnnexB) (seq : UInt16) :
    let out := packetize pt ts ssrc nal.toNalUnit seq
    UnitOk nal.body seq out.1 ∧ out.2 = seq + UInt16.ofNat out.1.length := by
  have hskip := skipStartCode_toNalUnit nal
  have htype := nal.type_ok
  cases hbody : nal.body with
  | nil =>
      have hout : packetize pt ts ssrc nal.toNalUnit seq = ([], seq) := by
        rw [packetize, hskip, hbody]
        rfl
      rw [hout]
      exact ⟨unitOk_nil seq, (UInt16.add_zero seq).symm⟩
  | cons header src =>
      rw [hbody] at hskip htype
      have hheader : header &&& 0x1F ≠ 28 := by
        intro h28
        have hle := (htype header rfl).2
        rw [h28] at hle
        exact absurd hle (by decide)
      simp only [packetize, hskip]
      have hsome : ¬(header :: src).length = 0 := Nat.succ_ne_zero _
      rw [if_neg hsome]
      rcases Nat.lt_or_ge maxRtpPayload (header :: src).length with hlong | hshort
      · -- the header is not sent, so one byte less has to be split
        rw [if_neg (Nat.not_le_of_lt hlong)]
        have hlen : 1198 < src.length := by
          rw [List.length_cons, maxRtpPayload] at hlong
          omega
        have hne : src ≠ [] := List.ne_nil_of_length_pos (by omega)
        exact ⟨unitOk_fragments pt ts ssrc hlen (fragments_fuaLoop pt ts ssrc header hne true seq),
          snd_fuaLoop pt ts ssrc _ _ src true seq⟩
      · rw [if_pos hshort]
        exact ⟨unitOk_single pt ts ssrc hshort hheader seq, rfl⟩

/-! ## The whole stream -/

theorem foldlM_receive_append {pkts pkts' : List RtpPacket} {a a' : Assembly}
    (h : (pkts.map RtpPacket.payload).foldlM receive a = some a') :
    ((pkts ++ pkts').map RtpPacket.payload).foldlM receive a =
      (pkts'.map RtpPacket.payload).foldlM receive a' := by
  rw [List.map_append, List.foldlM_append, h]
  rfl

/-- The packets of a stream are put together to its units. -/
theorem receive_packetizeAll (nals : List (UInt32 × AnnexB)) (seq : UInt16) (a : Assembly)
    (hpending : a.pending = none) :
    ((packetizeAll pt ssrc (nalUnits nals) seq).1.flatten.map
      RtpPacket.payload).foldlM receive a =
      some { a with nals := a.nals ++ (bodies nals).filter (· ≠ []) } := by
  induction nals generalizing seq a with
  | nil =>
      rw [bodies, List.map_nil, List.filter_nil, List.append_nil]
      rfl
  | cons nal nals ih =>
      obtain ⟨ts, nal⟩ := nal
      have hunit := (packetize_toNalUnit pt ts ssrc nal seq).1.receive a hpending
      rw [nalUnits_cons, packetizeAll]
      dsimp only
      rw [List.flatten_cons, foldlM_receive_append hunit]
      -- the receiver goes on with the units rebuilt so far and nothing pending
      refine (ih _ ⟨a.nals ++ if nal.body = [] then [] else [nal.body], a.pending⟩
        hpending).trans ?_
      rw [List.append_assoc, bodies_cons]
      congr 3
      by_cases hempty : nal.body = []
      · rw [if_pos hempty, List.filter_cons_of_neg (by simpa using hempty), List.nil_append]
      · rw [if_neg hempty, List.filter_cons_of_pos (by simpa using hempty), List.singleton_append]

/-- The packets of a stream are numbered without a gap. -/
theorem sequence_packetizeAll (nals : List (UInt32 × AnnexB)) (seq : UInt16) :
    let out := packetizeAll pt ssrc (nalUnits nals) seq
    (∀ i pkt, out.1.flatten[i]? = some pkt → pkt.sequence = seq + UInt16.ofNat i) ∧
      out.2 = seq + UInt16.ofNat out.1.flatten.length := by
  induction nals generalizing seq with
  | nil =>
      refine ⟨fun i pkt h => ?_, (UInt16.add_zero seq).symm⟩
      simp [nalUnits, packetizeAll] at h
  | cons nal nals ih =>
      obtain ⟨ts, nal⟩ := nal
      obtain ⟨hunit, hnext⟩ := packetize_toNalUnit pt ts ssrc nal seq
      obtain ⟨hrest, hend⟩ := ih (packetize pt ts ssrc nal.toNalUnit seq).2
      simp only [nalUnits_cons, packetizeAll, List.flatten_cons]
      constructor
      · intro i pkt h
        rcases Nat.lt_or_ge i (packetize pt ts ssrc nal.toNalUnit seq).1.length with hlt | hge
        · rw [List.getElem?_append_left hlt] at h
          exact hunit.sequence i pkt h
        · rw [List.getElem?_append_right hge] at h
          rw [hrest _ pkt h, hnext, UInt16.add_assoc, ← UInt16.ofNat_add, Nat.add_sub_cancel' hge]
      · rw [hend, hnext, UInt16.add_assoc, ← UInt16.ofNat_add, List.length_append]

/-- Each list of packets belongs to a unit of the stream. -/
theorem unitOk_of_mem {nals : List (UInt32 × AnnexB)} {seq : UInt16} {pkts : List RtpPacket}
    (h : pkts ∈ (packetizeAll pt ssrc (nalUnits nals) seq).1) :
    ∃ nal ∈ nals, ∃ seq, UnitOk nal.2.body seq pkts := by
  induction nals generalizing seq with
  | nil => exact absurd h List.not_mem_nil
  | cons nal nals ih =>
      obtain ⟨ts, nal⟩ := nal
      rw [nalUnits_cons, packetizeAll] at h
      rcases List.mem_cons.1 h with rfl | hmem
      · exact ⟨_, List.mem_cons_self, seq, (packetize_toNalUnit pt ts ssrc nal seq).1⟩
      · obtain ⟨nal', hnal', hunit⟩ := ih hmem
        exact ⟨nal', List.mem_cons_of_mem _ hnal', hunit⟩

/-- A list of packets for every unit, even an empty one. -/
theorem length_packetizeAll (nals : List (UInt32 × NalUnit)) (seq : UInt16) :
    (packetizeAll pt ssrc nals seq).1.length = nals.length := by
  induction nals generalizing seq with
  | nil => rfl
  | cons nal nals ih => rw [packetizeAll, List.length_cons, List.length_cons, ih]

/-- The packets of a stream of units with any timestamps, unit by unit: every payload fits, the
sequence numbers are consecutive from the counter's initial value on and end before its final one,
the last packet of each unit and no other has the marker, no fragment both starts and ends a unit,
and the receiver rebuilds the non-empty units. -/
theorem packetizeAll_reassembles (nals : List (UInt32 × AnnexB)) (seq : UInt16) :
    let out := packetizeAll pt ssrc (nalUnits nals) seq
    (∀ pkt ∈ out.1.flatten, pkt.payload.length ≤ 1200) ∧
      (∀ i pkt, out.1.flatten[i]? = some pkt → pkt.sequence = seq + UInt16.ofNat i) ∧
      out.2 = seq + UInt16.ofNat out.1.flatten.length ∧
      out.1.length = nals.length ∧
      (∀ pkts ∈ out.1, ∀ i pkt, pkts[i]? = some pkt →
        (pkt.marker = true ↔ i + 1 = pkts.length)) ∧
      (∀ pkt ∈ out.1.flatten, ¬StartsAndEnds pkt.payload) ∧
      reassemble out.1.flatten = some ((bodies nals).filter (· ≠ [])) := by
  intro out
  obtain ⟨hsequence, hend⟩ := sequence_packetizeAll pt ssrc nals seq
  have hreceive := receive_packetizeAll pt ssrc nals seq {} rfl
  refine ⟨?_, hsequence, hend, ?_, ?_, ?_, ?_⟩
  · intro pkt hpkt
    obtain ⟨pkts, hpkts, hmem⟩ := List.mem_flatten.1 hpkt
    obtain ⟨_, _, _, hunit⟩ := unitOk_of_mem pt ssrc hpkts
    exact hunit.size pkt hmem
  · rw [length_packetizeAll, nalUnits, List.length_map]
  · intro pkts hpkts
    obtain ⟨_, _, _, hunit⟩ := unitOk_of_mem pt ssrc hpkts
    exact hunit.marker
  · intro pkt hpkt
    obtain ⟨pkts, hpkts, hmem⟩ := List.mem_flatten.1 hpkt
    obtain ⟨_, _, _, hunit⟩ := unitOk_of_mem pt ssrc hpkts
    exact hunit.flags pkt hmem
  · rw [reassemble, hreceive]
    rfl

end Unit

end CppMeet.Video.Reassembly
