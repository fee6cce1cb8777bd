import CppMeet.Signaling.SdpRoundTrip
import CppMeet.Signaling.SdpTotal

/-!
# Descriptions that were read

What `parse` makes of a text can be written and read again: all of its strings come from lines and
tokens. One thing changes on the way. The `m=` line of a section without a type reads `m= 0 `, so
the port is taken for the type; the section has the type 0 then and keeps it
(`parse_serialize_parse`).
-/

set_option autoImplicit false

namespace CppMeet.Signaling.SdpNormal

open CppMeet.Lib.TextStream CppMeet.Signaling.SdpText CppMeet.Signaling.SdpRoundTrip
open CppMeet.Signaling.SdpTotal

/-- A media section as it is read: after a read that fails, the other fields of the line are left
as they are. -/
structure ReadMedia (m : SdpMedia) : Prop extends UnbrokenMedia m where
  port_eq : m.type = [] → m.port = 0
  proto_eq : m.type = [] → m.proto = []
  fmts_eq : m.proto = [] → m.fmts = []

/-- A description as it is read. -/
structure ReadSdp (sdp : Sdp) : Prop extends UnbrokenHead sdp where
  media : ∀ m ∈ sdp.media, ReadMedia m

/-- The section that is read back. -/
def namedMedia (m : SdpMedia) : SdpMedia := if m.type = [] then { m with type := "0".toList } else m

/-- The same description with the names that it is read back with. -/
def named (sdp : Sdp) : Sdp := { sdp with media := sdp.media.map namedMedia }

/-! ## Reading -/

/-- The fields are read one after the other from the value. -/
theorem parseMedia_eq (value : Text) : parseMedia value =
    { type := (token { rest := value }).1
      port := (uint16 (token { rest := value }).2).1
      proto := (token (uint16 (token { rest := value }).2).2).1
      fmts := ints (token (uint16 (token { rest := value }).2).2).2 } := rfl

/-- Whatever the line, the section is one that is read. -/
theorem readMedia_parseMedia (value : Text) : ReadMedia (parseMedia value) := by
  rw [parseMedia_eq]
  constructor
  case toUnbrokenMedia =>
    exact {
      type_token := isSpace_of_mem_token _
      proto_token := isSpace_of_mem_token _
      fingerprint := List.not_mem_nil
      iceUfrag := List.not_mem_nil
      icePwd := List.not_mem_nil
      candidate := List.not_mem_nil
      rtpmap := List.forall_mem_nil _ }
  case port_eq =>
    intro htype
    exact congrArg Prod.fst (uint16_fail (fail_of_token_nil htype))
  case proto_eq =>
    intro htype
    have hfail := fail_of_token_nil htype
    rw [← congrArg Prod.snd (uint16_fail hfail)] at hfail
    exact congrArg Prod.fst (token_fail hfail)
  case fmts_eq =>
    intro hproto
    exact ints_fail (fail_of_token_nil hproto)

section Attr

variable {m m' : SdpMedia} {value : Text}

/-- An attribute keeps the section one that is read. -/
theorem ReadMedia.parseAttr (h : ReadMedia m) (hvalue : '\n' ∉ value)
    (hok : parseAttr m value = .ok m') : ReadMedia m' := by
  have hdrop : ∀ k, '\n' ∉ value.drop k := fun k hmem => hvalue (List.mem_of_mem_drop hmem)
  rw [SdpText.parseAttr] at hok
  dsimp only at hok
  split_ifs at hok with hrtpmap hblank hfingerprint hufrag hpwd hcandidate hfirst
  · -- the codec is a part of the value
    have hcodec : '\n' ∉ ((value.drop 7).dropWhile (· ≠ ' ')).drop 1 := fun hmem =>
      hdrop 7 ((List.dropWhile_suffix _).subset (List.mem_of_mem_drop hmem))
    cases hpt : stoi ((value.drop 7).takeWhile (· ≠ ' ')) with
    | error e =>
        simp only [hpt] at hok
        cases hok
    | ok pt =>
        simp only [hpt] at hok
        cases hok
        refine { h with rtpmap := ?_ }
        intro entry hentry
        rcases List.mem_append.1 hentry with hold | hnew
        · exact h.rtpmap entry hold
        · rw [List.mem_singleton.1 hnew]
          exact hcodec
  · cases hok
    exact h
  · cases hok
    exact { h with fingerprint := hdrop 12 }
  · cases hok
    exact { h with iceUfrag := hdrop 10 }
  · cases hok
    exact { h with icePwd := hdrop 8 }
  · cases hok
    exact { h with candidate := hdrop 10 }
  · cases hok
    exact h
  · cases hok
    exact h

end Attr

/-- Removing the carriage return adds no characters. -/
theorem stripCr_subset (line : Text) : stripCr line ⊆ line := by
  rw [stripCr]
  split
  · exact List.dropLast_subset line
  · exact List.Subset.refl line

/-- A line keeps the description one that is read. -/
theorem ReadSdp.parseLine {sdp sdp' : Sdp} {line : Text} (h : ReadSdp sdp) (hline : '\n' ∉ line)
    (hok : parseLine sdp line = .ok sdp') : ReadSdp sdp' := by
  rcases stripCr_cases line with ⟨hsame, -, -⟩ | ⟨c, value, hfield⟩
  · rw [hsame] at hok
    cases hok
    exact h
  have hvalue : '\n' ∉ value := by
    intro hmem
    apply hline
    apply stripCr_subset line
    rw [hfield]
    exact List.mem_cons_of_mem _ (List.mem_cons_of_mem _ hmem)
  by_cases hc : c = 'a'
  · rw [parseLine_of_eq hfield sdp hc] at hok
    cases hlast : sdp.media.getLast? with
    | none =>
        -- an attribute in front of all media sections is skipped
        rw [hlast] at hok
        cases hok
        exact h
    | some m =>
        rw [hlast] at hok
        dsimp only at hok
        cases hattr : SdpText.parseAttr m value with
        | error e =>
            rw [hattr] at hok
            cases hok
        | ok m' =>
            rw [hattr] at hok
            cases hok
            -- the attribute changes the last media section
            have hm' := (h.media m (List.mem_of_getLast? hlast)).parseAttr hvalue hattr
            refine { h with media := fun m'' hm'' => ?_ }
            rcases List.mem_append.1 hm'' with hold | hnew
            · exact h.media m'' (List.dropLast_subset _ hold)
            · rw [List.mem_singleton.1 hnew]
              exact hm'
  · -- the other lines set one field each, and a media line adds a section
    rw [SdpText.parseLine] at hok
    dsimp only at hok
    rw [hfield, if_neg (by simp)] at hok
    dsimp only [List.headD_cons] at hok
    split at hok
    · cases hok
      exact { h with version := hvalue }
    · cases hok
      exact { h with origin := hvalue }
    · cases hok
      exact { h with sessionName := hvalue }
    · cases hok
      refine { h with media := fun m hm => ?_ }
      rcases List.mem_append.1 hm with hold | hnew
      · exact h.media m hold
      · rw [List.mem_singleton.1 hnew]
        exact readMedia_parseMedia value
    · exact absurd rfl hc
    · cases hok
      exact h

theorem readSdp_foldlM {sdp sdp' : Sdp} {ls : List Text} (h : ReadSdp sdp)
    (hls : ∀ line ∈ ls, '\n' ∉ line) (hok : ls.foldlM parseLine sdp = .ok sdp') :
    ReadSdp sdp' := by
  induction ls generalizing sdp with
  | nil =>
      cases hok
      exact h
  | cons line ls ih =>
      obtain ⟨hline, hrest⟩ := List.forall_mem_cons.1 hls
      rw [List.foldlM_cons] at hok
      cases hnext : parseLine sdp line with
      | error e =>
          rw [hnext] at hok
          cases hok
      | ok next =>
          rw [hnext] at hok
          exact ih (h.parseLine hline hnext) hrest hok

/-- What is parsed is a description as it is read. -/
theorem readSdp_parse {text : Text} {sdp : Sdp} (hok : parse text = .ok (some sdp)) :
    ReadSdp sdp := by
  have hinit : ReadSdp {} :=
    { version := by decide
      origin := List.not_mem_nil
      sessionName := by decide
      media := List.forall_mem_nil _ }
  rw [parse] at hok
  cases hlines : (getlines text).foldlM parseLine {} with
  | error e =>
      rw [hlines] at hok
      cases hok
  | ok next =>
      rw [hlines] at hok
      cases hok
      exact readSdp_foldlM hinit (newline_not_mem_getlines text) hlines

/-! ## Writing and reading again -/

/-- The line of a section whose proto is missing: the type and the port are read, and no more. -/
theorem parseMedia_without_proto {m : SdpMedia} (h : ReadMedia m) (htype : m.type ≠ [])
    (hproto : m.proto = []) : parseMedia (mediaValue m) = { type := m.type, port := m.port } := by
  have hvalue : mediaValue m = m.type ++ (' ' :: (showInt m.port.toNat ++ [' '])) := by
    rw [mediaValue, hproto, h.fmts_eq hproto, toList_blank]
    simp
  have hblank : ∀ text : Text, ∀ c ∈ (' ' :: text).head?, isSpace c = true := by
    intro text c hc
    cases hc
    rfl
  have htok := token_append [] (List.forall_mem_nil _) htype h.type_token
    (hblank (showInt m.port.toNat ++ [' ']))
  have hport := uint16_append [' '] isSpace_of_mem_blank m.port (hblank [])
  have hnone : token { rest := [' '] } = ([], { rest := [], fail := true }) := by decide
  rw [List.nil_append] at htok
  rw [List.singleton_append] at hport
  rw [parseMedia_eq, hvalue, htok, hport, hnone, ints_fail rfl]

/-- The line of a section whose type is missing: the port, which is 0, is read as the type. -/
theorem parseMedia_without_type {m : SdpMedia} (h : ReadMedia m) (htype : m.type = []) :
    parseMedia (mediaValue m) = { type := "0".toList, port := 0 } := by
  have hproto := h.proto_eq htype
  have hvalue : mediaValue m = " 0 ".toList := by
    rw [mediaValue, htype, h.port_eq htype, hproto, h.fmts_eq hproto]
    decide
  have htok : token { rest := " 0 ".toList } = ("0".toList, { rest := [' '] }) := by decide
  have hport : uint16 { rest := [' '] } = (0, { rest := [], fail := true }) := by decide
  rw [parseMedia_eq, hvalue, htok, hport, token_fail rfl, ints_fail rfl]

/-- The line of a section as it is read is read back, with its name. -/
theorem parseMedia_mediaValue_read {m : SdpMedia} (h : ReadMedia m) :
    parseMedia (mediaValue m) =
      { type := (namedMedia m).type, port := m.port, proto := m.proto, fmts := m.fmts } := by
  rw [namedMedia]
  by_cases htype : m.type = []
  · have hproto := h.proto_eq htype
    rw [if_pos htype, parseMedia_without_type h htype, h.port_eq htype, hproto, h.fmts_eq hproto]
  · rw [if_neg htype]
    by_cases hproto : m.proto = []
    · rw [parseMedia_without_proto h htype hproto, hproto, h.fmts_eq hproto]
    · exact parseMedia_mediaValue { h with type_ne := htype, proto_ne := hproto }

/-- Only the type is changed. -/
theorem namedMedia_eq (m : SdpMedia) : namedMedia m = { m with type := (namedMedia m).type } := by
  rw [namedMedia]
  split
  · rfl
  · rfl

/-- The attribute lines are read into the section with a type. -/
theorem foldlM_attrValues_read (m : SdpMedia) :
    (attrValues m).foldlM SdpText.parseAttr
      { type := (namedMedia m).type, port := m.port, proto := m.proto, fmts := m.fmts } =
        .ok (namedMedia m) := by
  have hattrs := foldlM_attrValues (namedMedia m)
  rw [namedMedia_eq m] at hattrs ⊢
  exact hattrs

/-- The lines of one section are read as the section that has a type. -/
theorem foldlM_mediaLines_read (sdp : Sdp) {m : SdpMedia} (h : ReadMedia m) :
    ((mediaLines m).map (· ++ ['\r'])).foldlM parseLine sdp =
      .ok { sdp with media := sdp.media ++ [namedMedia m] } := by
  have hline : parseLine sdp ("m=".toList ++ mediaValue m ++ ['\r']) = .ok { sdp with
      media := sdp.media ++
        [{ type := (namedMedia m).type, port := m.port, proto := m.proto, fmts := m.fmts }] } := by
    rw [← parseMedia_mediaValue_read h]
    exact parseLine_field sdp 'm' (mediaValue m)
  have hattrs := foldlM_attrLines sdp sdp.media (foldlM_attrValues_read m)
  have hlines : (mediaLines m).map (· ++ ['\r']) = ("m=".toList ++ mediaValue m ++ ['\r']) ::
      (attrValues m).map fun value => "a=".toList ++ value ++ ['\r'] := by
    change List.map _ (_ :: _) = _
    rw [List.map_cons, List.map_map]
    rfl
  rw [hlines, foldlM_parseLine_cons hline]
  exact hattrs

/-- All sections are read back, with their names. -/
theorem foldlM_allMedia_read (sdp : Sdp) {ms : List SdpMedia} (h : ∀ m ∈ ms, ReadMedia m) :
    ((ms.flatMap mediaLines).map (· ++ ['\r'])).foldlM parseLine sdp =
      .ok { sdp with media := sdp.media ++ ms.map namedMedia } := by
  induction ms generalizing sdp with
  | nil =>
      rw [List.map_nil, List.append_nil]
      rfl
  | cons m ms ih =>
      obtain ⟨hm, hms⟩ := List.forall_mem_cons.1 h
      rw [List.flatMap_cons, List.map_append, List.foldlM_append, foldlM_mediaLines_read sdp hm]
      refine (ih _ hms).trans ?_
      rw [List.append_assoc]
      rfl

theorem ReadSdp.unbroken {sdp : Sdp} (h : ReadSdp sdp) : Unbroken sdp :=
  ⟨h.toUnbrokenHead, fun m hm => (h.media m hm).toUnbrokenMedia⟩

/-- What was read is written and read again with a type for every section. -/
theorem parse_serialize_read {sdp : Sdp} (h : ReadSdp sdp) :
    parse (serialize sdp) = .ok (some (named sdp)) := by
  have hlines : (lines sdp).map (· ++ ['\r']) =
      ('v' :: '=' :: sdp.version ++ ['\r']) :: ('o' :: '=' :: sdp.origin ++ ['\r']) ::
        ('s' :: '=' :: sdp.sessionName ++ ['\r']) :: ('t' :: '=' :: "0 0".toList ++ ['\r']) ::
        (sdp.media.flatMap mediaLines).map (· ++ ['\r']) := rfl
  have hfold : ((lines sdp).map (· ++ ['\r'])).foldlM parseLine {} = .ok (named sdp) := by
    rw [hlines, foldlM_parseLine_cons (parseLine_field _ 'v' _),
      foldlM_parseLine_cons (parseLine_field _ 'o' _),
      foldlM_parseLine_cons (parseLine_field _ 's' _),
      foldlM_parseLine_cons (parseLine_field _ 't' _)]
    exact foldlM_allMedia_read { sdp with media := [] } h.media
  rw [parse, getlines_unbroken h.unbroken, hfold]
  rfl

/-- The named description is one as it is read. -/
theorem ReadSdp.named {sdp : Sdp} (h : ReadSdp sdp) : ReadSdp (named sdp) where
  version := h.version
  origin := h.origin
  sessionName := h.sessionName
  media m hm := by
    obtain ⟨m, hmem, rfl⟩ := List.mem_map.1 hm
    rw [namedMedia]
    split
    · have htype : "0".toList ≠ [] := by decide
      have htoken : ∀ c ∈ "0".toList, isSpace c = false := List.forall_mem_singleton.2 (by decide)
      exact { h.media m hmem with
        type_token := htoken
        port_eq := fun hnil => absurd hnil htype
        proto_eq := fun hnil => absurd hnil htype }
    · exact h.media m hmem

theorem type_namedMedia_ne (m : SdpMedia) : (namedMedia m).type ≠ [] := by
  rw [namedMedia]
  split
  · exact List.cons_ne_nil _ _
  · rename_i hne
    exact hne

theorem namedMedia_eq_self_iff (m : SdpMedia) : namedMedia m = m ↔ m.type ≠ [] := by
  constructor
  · intro heq
    rw [← heq]
    exact type_namedMedia_ne m
  · exact fun hne => if_neg hne

/-- A description whose sections have types is its own named form. -/
theorem named_eq_self_iff (sdp : Sdp) : named sdp = sdp ↔ ∀ m ∈ sdp.media, m.type ≠ [] := by
  have hmedia : named sdp = sdp ↔ sdp.media.map namedMedia = sdp.media := by
    constructor
    · exact fun heq => congrArg Sdp.media heq
    · intro heq
      rw [SdpNormal.named, heq]
  rw [hmedia]
  nth_rewrite 2 [← List.map_id sdp.media]
  rw [List.map_inj_left]
  exact forall₂_congr fun m _ => namedMedia_eq_self_iff m

/-- Whatever text was read: what was read is written as a text that is read as the same description,
except that a section without a type has the type 0 then; and that description no longer changes. -/
theorem parse_serialize_parse (text : Text) (sdp : Sdp) (h : parse text = .ok (some sdp)) :
    parse (serialize sdp) = .ok (some (named sdp)) ∧
      parse (serialize (named sdp)) = .ok (some (named sdp)) ∧
      (named sdp = sdp ↔ ∀ m ∈ sdp.media, m.type ≠ []) := by
  have hread := readSdp_parse h
  refine ⟨parse_serialize_read hread, ?_, named_eq_self_iff sdp⟩
  have htype : ∀ m ∈ (named sdp).media, m.type ≠ [] := by
    intro m hm
    obtain ⟨m, -, rfl⟩ := List.mem_map.1 hm
    exact type_namedMedia_ne m
  rw [parse_serialize_read hread.named, (named_eq_self_iff _).2 htype]

/-- A media line that is blank, and an attribute for its section. -/
def blankMedia : Text := "m= \r\na=ice-pwd:x\r\n".toList

theorem parse_serialize_parse_blankMedia :
    parse (serialize { media := [{ port := 0, icePwd := "x".toList }] }) =
      .ok (some { media := [{ type := "0".toList, port := 0, icePwd := "x".toList }] }) := by
  have hmedia : parseMedia " ".toList = { port := 0 } := by
    rw [parseMedia_eq, ints_fail (by decide)]
    decide
  have hread : parse blankMedia =
      .ok (some { media := [{ port := 0, icePwd := "x".toList }] }) := by
    have hfirst : parseLine {} "m= \r".toList = .ok { media := [{ port := 0 }] } := by
      rw [← hmedia]
      rfl
    have hlines : getlines blankMedia = ["m= \r".toList, "a=ice-pwd:x\r".toList] := by decide
    rw [parse, hlines, foldlM_parseLine_cons hfirst]
    rfl
  exact (parse_serialize_parse blankMedia _ hread).1

end CppMeet.Signaling.SdpNormal
