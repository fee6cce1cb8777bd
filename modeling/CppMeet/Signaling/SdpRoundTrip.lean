import CppMeet.Signaling.SdpText

/-!
# Session descriptions round trip

What `serialize` writes on one line is undone by what `parseLine` does with it. An attribute that
is left out is one that the reader leaves empty. The lines come back as they were written because
none of them contains a line break, and each loses the carriage return it was given.
-/

set_option autoImplicit false

namespace CppMeet.Signaling.SdpRoundTrip

open CppMeet.Lib.TextStream CppMeet.Signaling.SdpText

/-- A media section whose type and proto have no white space and whose other strings have no line
break. -/
structure UnbrokenMedia (m : SdpMedia) : Prop where
  type_token : ∀ c ∈ m.type, isSpace c = false
  proto_token : ∀ c ∈ m.proto, isSpace c = false
  fingerprint : '\n' ∉ m.fingerprint
  iceUfrag : '\n' ∉ m.iceUfrag
  icePwd : '\n' ∉ m.icePwd
  candidate : '\n' ∉ m.candidate
  rtpmap : ∀ entry ∈ m.rtpmap, '\n' ∉ entry.2

/-- A media section whose type and proto are tokens and whose other strings have no line break. -/
structure PlainMedia (m : SdpMedia) : Prop extends UnbrokenMedia m where
  type_ne : m.type ≠ []
  proto_ne : m.proto ≠ []

/-- The strings of the session itself have no line break. -/
structure UnbrokenHead (sdp : Sdp) : Prop where
  version : '\n' ∉ sdp.version
  origin : '\n' ∉ sdp.origin
  sessionName : '\n' ∉ sdp.sessionName

/-- A description whose strings have no line break, and no white space where tokens are read. -/
structure Unbroken (sdp : Sdp) : Prop extends UnbrokenHead sdp where
  media : ∀ m ∈ sdp.media, UnbrokenMedia m

/-- A description whose strings have no line break, with tokens for the types and protos. -/
structure Plain (sdp : Sdp) : Prop extends UnbrokenHead sdp where
  media : ∀ m ∈ sdp.media, PlainMedia m

theorem Plain.unbroken {sdp : Sdp} (h : Plain sdp) : Unbroken sdp :=
  ⟨h.toUnbrokenHead, fun m hm => (h.media m hm).toUnbrokenMedia⟩

/-! ## Media lines -/

theorem toList_blank : " ".toList = [' '] := rfl

/-- The formats begin with a blank, if there are any. -/
theorem head?_fmts (fmts : List Int32) :
    ∀ c ∈ (fmts.flatMap fun pt => " ".toList ++ showInt pt.toInt).head?, isSpace c = true := by
  cases fmts with
  | nil =>
      intro c hc
      cases hc
  | cons pt fmts =>
      intro c hc
      cases hc
      rfl

theorem parseMedia_mediaValue {m : SdpMedia} (h : PlainMedia m) :
    parseMedia (mediaValue m) =
      { type := m.type, port := m.port, proto := m.proto, fmts := m.fmts } := by
  have hblank : ∀ text : Text, ∀ c ∈ (' ' :: text).head?, isSpace c = true := by
    intro text c hc
    cases hc
    rfl
  have htype := token_append [] (fun _ h => nomatch h) h.type_ne h.type_token
    (hblank (showInt m.port.toNat ++ (' ' :: (m.proto ++
      m.fmts.flatMap fun pt => " ".toList ++ showInt pt.toInt))))
  -- each extraction leaves the text from the next blank on
  have hport := uint16_append [' '] isSpace_of_mem_blank m.port
    (hblank (m.proto ++ m.fmts.flatMap fun pt => " ".toList ++ showInt pt.toInt))
  have hproto := token_append [' '] isSpace_of_mem_blank h.proto_ne h.proto_token
    (head?_fmts m.fmts)
  have hvalue : mediaValue m = m.type ++ (' ' :: (showInt m.port.toNat ++ (' ' :: (m.proto ++
      m.fmts.flatMap fun pt => " ".toList ++ showInt pt.toInt)))) := by
    rw [mediaValue, List.append_assoc, List.append_assoc, List.append_assoc, List.append_assoc,
      toList_blank]
    rfl
  rw [List.nil_append] at htype
  rw [List.singleton_append] at hport hproto
  simp only [parseMedia, hvalue, htype, hport, hproto]
  rw [show (m.fmts.flatMap fun pt => " ".toList ++ showInt pt.toInt) =
    m.fmts.flatMap fun pt => ' ' :: showInt pt.toInt from rfl, ints_flatMap]

/-! ## Attribute lines -/

/-- An integer consists of digits and a minus sign. -/
theorem ne_of_mem_showInt {z : ℤ} {c : Char} (h : c ∈ showInt z) {d : Char} (hminus : d ≠ '-')
    (hdigit : d.isDigit = false) : c ≠ d := by
  have hdigits : c ∈ Nat.toDigits 10 z.natAbs → c ≠ d := by
    rintro hmem rfl
    rw [Nat.isDigit_of_mem_toDigits (by decide) (by decide) hmem] at hdigit
    cases hdigit
  rw [showInt] at h
  split at h
  · rcases List.mem_cons.1 h with rfl | hmem
    · exact hminus.symm
    · exact hdigits hmem
  · exact hdigits h

theorem rtpmapValue_eq (entry : Int32 × Text) : rtpmapValue entry =
    "rtpmap:".toList ++ showInt entry.1.toInt ++ " ".toList ++ entry.2 := rfl

theorem parseAttr_rtpmapValue (m : SdpMedia) (entry : Int32 × Text) :
    parseAttr m (rtpmapValue entry) = .ok { m with rtpmap := m.rtpmap ++ [entry] } := by
  have hblank : ∀ c ∈ showInt entry.1.toInt, (c ≠ ' ' : Bool) = true := by
    exact fun c hc => decide_eq_true (ne_of_mem_showInt hc (by decide) rfl)
  have hstops : Stops (fun c => decide (c ≠ ' ')) (' ' :: entry.2) := by
    intro c hc
    cases hc
    rfl
  obtain ⟨htake, hdrop⟩ := takeWhile_append hblank hstops
  have hvalue : rtpmapValue entry =
      "rtpmap:".toList ++ (showInt entry.1.toInt ++ ' ' :: entry.2) := by
    rw [rtpmapValue_eq, List.append_assoc, List.append_assoc, toList_blank, List.singleton_append]
  have hrest : (rtpmapValue entry).drop 7 = showInt entry.1.toInt ++ ' ' :: entry.2 := by
    rw [hvalue]
    exact List.drop_left' rfl
  have hkey : "rtpmap:".toList.isPrefixOf (rtpmapValue entry) = true := by
    rw [hvalue]
    exact List.isPrefixOf_iff_prefix.2 (List.prefix_append _ _)
  -- the number ends at the first blank, and the codec is all that follows
  rw [parseAttr, if_pos hkey]
  simp only [hrest, htake, hdrop, stoi_showInt]
  rw [if_pos (by simp)]
  rfl

theorem foldlM_rtpmap (m : SdpMedia) (entries : List (Int32 × Text)) :
    (entries.map rtpmapValue).foldlM parseAttr m =
      .ok { m with rtpmap := m.rtpmap ++ entries } := by
  induction entries generalizing m with
  | nil =>
      rw [List.append_nil]
      rfl
  | cons entry entries ih =>
      rw [List.map_cons, List.foldlM_cons, parseAttr_rtpmapValue]
      refine (ih _).trans ?_
      rw [List.append_assoc]
      rfl

/-- An attribute that is left out when it is empty is read back. -/
theorem foldlM_optional {m m' : SdpMedia} {key value : Text}
    (hempty : value = [] → m = m') (hattr : value ≠ [] → parseAttr m (key ++ value) = .ok m') :
    (optionalAttr key value).foldlM parseAttr m = .ok m' := by
  rw [optionalAttr]
  split
  · rename_i hnil
    rw [hempty hnil]
    rfl
  · rename_i hne
    rw [List.foldlM_cons, hattr hne]
    rfl

theorem foldlM_append {vs vs' : List Text} {m m' : SdpMedia}
    (h : vs.foldlM parseAttr m = .ok m') :
    (vs ++ vs').foldlM parseAttr m = vs'.foldlM parseAttr m' := by
  rw [List.foldlM_append, h]
  rfl

/-- The attributes of a section, read into a section without attributes. -/
theorem foldlM_attrValues (m : SdpMedia) :
    (attrValues m).foldlM parseAttr
      { type := m.type, port := m.port, proto := m.proto, fmts := m.fmts } = .ok m := by
  have hufrag (m' : SdpMedia) (h : m'.iceUfrag = []) :
      (optionalAttr "ice-ufrag:".toList m.iceUfrag).foldlM parseAttr m' =
        .ok { m' with iceUfrag := m.iceUfrag } :=
    foldlM_optional (fun hnil => by rw [hnil, ← h]) (fun _ => rfl)
  have hpwd (m' : SdpMedia) (h : m'.icePwd = []) :
      (optionalAttr "ice-pwd:".toList m.icePwd).foldlM parseAttr m' =
        .ok { m' with icePwd := m.icePwd } :=
    foldlM_optional (fun hnil => by rw [hnil, ← h]) (fun _ => rfl)
  have hfingerprint (m' : SdpMedia) (h : m'.fingerprint = []) :
      (optionalAttr "fingerprint:".toList m.fingerprint).foldlM parseAttr m' =
        .ok { m' with fingerprint := m.fingerprint } :=
    foldlM_optional (fun hnil => by rw [hnil, ← h]) (fun _ => rfl)
  have hcandidate (m' : SdpMedia) (h : m'.candidate = []) :
      (optionalAttr "candidate:".toList m.candidate).foldlM parseAttr m' =
        .ok { m' with candidate := m.candidate } := by
    apply foldlM_optional (fun hnil => by rw [hnil, ← h])
    intro _
    -- the first candidate is kept
    have hkept : parseAttr m' ("candidate:".toList ++ m.candidate) =
        if m'.candidate = [] then .ok { m' with candidate := m.candidate } else .ok m' := rfl
    rw [hkept, if_pos h]
  -- in the order in which they are written
  rw [attrValues, foldlM_append (foldlM_append (foldlM_append (foldlM_append (hufrag _ rfl)
    |>.trans (hpwd _ rfl)) |>.trans (hfingerprint _ rfl)) |>.trans (hcandidate _ rfl)),
    foldlM_rtpmap]
  rfl

/-! ## Lines -/

theorem stripCr_append (line : Text) : stripCr (line ++ ['\r']) = line := by
  rw [stripCr, List.getLast?_concat, if_pos rfl, List.dropLast_concat]

/-- What the reader does with a line `c=value`. -/
theorem parseLine_field (sdp : Sdp) (c : Char) (value : Text) :
    parseLine sdp ((c :: '=' :: value) ++ ['\r']) =
      match c with
      | 'v' => .ok { sdp with version := value }
      | 'o' => .ok { sdp with origin := value }
      | 's' => .ok { sdp with sessionName := value }
      | 'm' => .ok { sdp with media := sdp.media ++ [parseMedia value] }
      | 'a' =>
          match sdp.media.getLast? with
          | some curMedia => do
              let m ← parseAttr curMedia value
              return { sdp with media := sdp.media.dropLast ++ [m] }
          | none => .ok sdp
      | _ => .ok sdp := by
  have hfield : ¬((c :: '=' :: value).length < 2 ∨ (c :: '=' :: value).getD 1 ' ' ≠ '=') := by
    simp
  simp only [parseLine, stripCr_append]
  rw [if_neg hfield]
  rfl

theorem foldlM_parseLine_cons {sdp sdp' : Sdp} {line : Text} {lines : List Text}
    (h : parseLine sdp line = .ok sdp') :
    (line :: lines).foldlM parseLine sdp = lines.foldlM parseLine sdp' := by
  rw [List.foldlM_cons, h]
  rfl

/-- The attributes of a section change the last section. -/
theorem foldlM_attrLines (sdp : Sdp) (done : List SdpMedia) {cur m : SdpMedia} {values : List Text}
    (h : values.foldlM parseAttr cur = .ok m) :
    (values.map fun value => "a=".toList ++ value ++ ['\r']).foldlM parseLine
      { sdp with media := done ++ [cur] } = .ok { sdp with media := done ++ [m] } := by
  induction values generalizing cur with
  | nil =>
      cases h
      rfl
  | cons value values ih =>
      rw [List.foldlM_cons] at h
      cases hattr : parseAttr cur value with
      | error e =>
          rw [hattr] at h
          cases h
      | ok next =>
          rw [hattr] at h
          have hline : parseLine { sdp with media := done ++ [cur] }
              ("a=".toList ++ value ++ ['\r']) = .ok { sdp with media := done ++ [next] } := by
            -- the attribute goes to the last section
            refine (parseLine_field _ 'a' value).trans ?_
            dsimp only
            rw [List.getLast?_concat, List.dropLast_concat]
            dsimp only
            rw [hattr]
            rfl
          rw [List.map_cons, foldlM_parseLine_cons hline]
          exact ih h

theorem foldlM_mediaLines (sdp : Sdp) {m : SdpMedia} (h : PlainMedia m) :
    ((mediaLines m).map (· ++ ['\r'])).foldlM parseLine sdp =
      .ok { sdp with media := sdp.media ++ [m] } := by
  have hmedia : parseLine sdp ("m=".toList ++ mediaValue m ++ ['\r']) = .ok { sdp with media :=
      sdp.media ++ [{ type := m.type, port := m.port, proto := m.proto, fmts := m.fmts }] } := by
    rw [← parseMedia_mediaValue h]
    exact parseLine_field sdp 'm' (mediaValue m)
  have hattrs := foldlM_attrLines sdp sdp.media (foldlM_attrValues m)
  have hlines : (mediaLines m).map (· ++ ['\r']) = ("m=".toList ++ mediaValue m ++ ['\r']) ::
      (attrValues m).map fun value => "a=".toList ++ value ++ ['\r'] := by
    change List.map _ (_ :: _) = _
    rw [List.map_cons, List.map_map]
    rfl
  rw [hlines, foldlM_parseLine_cons hmedia]
  exact hattrs

theorem foldlM_allMedia (sdp : Sdp) {ms : List SdpMedia} (h : ∀ m ∈ ms, PlainMedia m) :
    ((ms.flatMap mediaLines).map (· ++ ['\r'])).foldlM parseLine sdp =
      .ok { sdp with media := sdp.media ++ ms } := by
  induction ms generalizing sdp with
  | nil =>
      rw [List.append_nil]
      rfl
  | cons m ms ih =>
      obtain ⟨hm, hms⟩ := List.forall_mem_cons.1 h
      rw [List.flatMap_cons, List.map_append, List.foldlM_append, foldlM_mediaLines sdp hm]
      refine (ih _ hms).trans ?_
      rw [List.append_assoc]
      rfl

/-! ## Line breaks -/

theorem newline_not_mem_showInt (z : ℤ) : '\n' ∉ showInt z :=
  fun h => ne_of_mem_showInt h (by decide) rfl rfl

theorem newline_not_mem_of_token {tok : Text} (h : ∀ c ∈ tok, isSpace c = false) : '\n' ∉ tok :=
  fun hmem => absurd (h '\n' hmem) (by decide)

theorem newline_not_mem_append {l l' : Text} (h : '\n' ∉ l) (h' : '\n' ∉ l') : '\n' ∉ l ++ l' :=
  fun hmem => (List.mem_append.1 hmem).elim h h'

theorem newline_not_mem_mediaValue {m : SdpMedia} (h : UnbrokenMedia m) :
    '\n' ∉ mediaValue m := by
  have hblank : '\n' ∉ " ".toList := by decide
  have hfmts : '\n' ∉ m.fmts.flatMap fun pt => " ".toList ++ showInt pt.toInt := by
    intro hmem
    obtain ⟨pt, _, hpt⟩ := List.mem_flatMap.1 hmem
    exact newline_not_mem_append hblank (newline_not_mem_showInt pt.toInt) hpt
  rw [mediaValue]
  apply newline_not_mem_append _ hfmts
  apply newline_not_mem_append _ (newline_not_mem_of_token h.proto_token)
  apply newline_not_mem_append _ hblank
  apply newline_not_mem_append _ (newline_not_mem_showInt _)
  exact newline_not_mem_append (newline_not_mem_of_token h.type_token) hblank

theorem newline_not_mem_optionalAttr {key value line : Text} (hkey : '\n' ∉ key)
    (hvalue : '\n' ∉ value) (hline : line ∈ optionalAttr key value) : '\n' ∉ line := by
  rw [optionalAttr] at hline
  split at hline
  · cases hline
  · rw [List.mem_singleton.1 hline]
    exact newline_not_mem_append hkey hvalue

theorem newline_not_mem_attrValues {m : SdpMedia} (h : UnbrokenMedia m) {value : Text}
    (hvalue : value ∈ attrValues m) : '\n' ∉ value := by
  simp only [attrValues, List.mem_append, or_assoc] at hvalue
  rcases hvalue with hufrag | hpwd | hfingerprint | hcandidate | hrtpmap
  · exact newline_not_mem_optionalAttr (by decide) h.iceUfrag hufrag
  · exact newline_not_mem_optionalAttr (by decide) h.icePwd hpwd
  · exact newline_not_mem_optionalAttr (by decide) h.fingerprint hfingerprint
  · exact newline_not_mem_optionalAttr (by decide) h.candidate hcandidate
  · obtain ⟨entry, hentry, rfl⟩ := List.mem_map.1 hrtpmap
    rw [rtpmapValue_eq]
    apply newline_not_mem_append _ (h.rtpmap entry hentry)
    apply newline_not_mem_append _ (by decide)
    exact newline_not_mem_append (by decide) (newline_not_mem_showInt _)

theorem newline_not_mem_lines {sdp : Sdp} (h : Unbroken sdp) {line : Text}
    (hline : line ∈ lines sdp) : '\n' ∉ line := by
  have hcases : line = "v=".toList ++ sdp.version ∨ line = "o=".toList ++ sdp.origin ∨
      line = "s=".toList ++ sdp.sessionName ∨ line = "t=0 0".toList ∨
      line ∈ sdp.media.flatMap mediaLines := by
    rcases List.mem_append.1 hline with hhead | hmedia
    · simp only [List.mem_cons, List.not_mem_nil, or_false] at hhead
      rw [← or_assoc, ← or_assoc, ← or_assoc]
      rw [← or_assoc, ← or_assoc] at hhead
      exact Or.inl hhead
    · exact Or.inr (Or.inr (Or.inr (Or.inr hmedia)))
  rcases hcases with rfl | rfl | rfl | rfl | hmedia
  · exact newline_not_mem_append (by decide) h.version
  · exact newline_not_mem_append (by decide) h.origin
  · exact newline_not_mem_append (by decide) h.sessionName
  · decide
  · obtain ⟨m, hm, hmem⟩ := List.mem_flatMap.1 hmedia
    rcases List.mem_cons.1 hmem with rfl | hattr
    · exact newline_not_mem_append (by decide) (newline_not_mem_mediaValue (h.media m hm))
    · obtain ⟨value, hvalue, rfl⟩ := List.mem_map.1 hattr
      exact newline_not_mem_append (by decide) (newline_not_mem_attrValues (h.media m hm) hvalue)

/-! ## The whole description -/

/-- The reader sees each line with the carriage return it was given. -/
theorem getlines_unbroken {sdp : Sdp} (h : Unbroken sdp) :
    getlines (serialize sdp) = (lines sdp).map (· ++ ['\r']) := by
  -- the carriage return is part of the line, the line feed ends it
  have hserialize : serialize sdp = ((lines sdp).map (· ++ ['\r'])).flatMap (· ++ ['\n']) := by
    have hcrlf : "\r\n".toList = ['\r'] ++ ['\n'] := rfl
    rw [serialize, List.flatMap_map]
    simp only [hcrlf, List.append_assoc]
  rw [hserialize]
  apply getlines_flatMap
  intro line hline
  obtain ⟨line, hmem, rfl⟩ := List.mem_map.1 hline
  exact newline_not_mem_append (newline_not_mem_lines h hmem) (by decide)

/-- The lines are read back, each with its carriage return. -/
theorem getlines_serialize {sdp : Sdp} (h : Plain sdp) :
    getlines (serialize sdp) = (lines sdp).map (· ++ ['\r']) := getlines_unbroken h.unbroken

/-- A description whose strings have no line break, and whose media types and protos are tokens, is
read back equal in every field. -/
theorem parse_serialize_sdp (sdp : Sdp) (h : Plain sdp) :
    parse (serialize sdp) = .ok (some sdp) := by
  have hversion : parseLine {} ("v=".toList ++ sdp.version ++ ['\r']) =
      .ok { version := sdp.version } := parseLine_field {} 'v' sdp.version
  have horigin : parseLine { version := sdp.version } ("o=".toList ++ sdp.origin ++ ['\r']) =
      .ok { version := sdp.version, origin := sdp.origin } := parseLine_field _ 'o' sdp.origin
  have hsession : parseLine { version := sdp.version, origin := sdp.origin }
      ("s=".toList ++ sdp.sessionName ++ ['\r']) = .ok { sdp with media := [] } :=
    parseLine_field _ 's' sdp.sessionName
  have htime : parseLine { sdp with media := [] } ("t=0 0".toList ++ ['\r']) =
      .ok { sdp with media := [] } := parseLine_field _ 't' "0 0".toList
  have hlines : (lines sdp).map (· ++ ['\r']) =
      ("v=".toList ++ sdp.version ++ ['\r']) :: ("o=".toList ++ sdp.origin ++ ['\r']) ::
        ("s=".toList ++ sdp.sessionName ++ ['\r']) :: ("t=0 0".toList ++ ['\r']) ::
        (sdp.media.flatMap mediaLines).map (· ++ ['\r']) := rfl
  have hfold : ((lines sdp).map (· ++ ['\r'])).foldlM parseLine {} = .ok sdp := by
    rw [hlines, foldlM_parseLine_cons hversion, foldlM_parseLine_cons horigin,
      foldlM_parseLine_cons hsession, foldlM_parseLine_cons htime]
    exact foldlM_allMedia { sdp with media := [] } h.media
  rw [parse, getlines_serialize h, hfold]
  rfl

/-- A description with two media sections; a string ends in a carriage return, and a codec contains
blanks. -/
theorem parse_serialize_sdp_two_media :
    let audio : SdpMedia :=
      { type := "audio".toList, proto := "UDP/TLS/RTP/SAVPF".toList, fmts := [111, -5]
        candidate := "1 1 udp".toList
        rtpmap := [(111, "opus/48000/2".toList), (-5, "a b ".toList)] }
    let video : SdpMedia := { type := "video".toList, port := 65535, proto := "x".toList }
    let sdp : Sdp := { origin := "- 1 1\r".toList, media := [audio, video] }
    parse (serialize sdp) = .ok (some sdp) := by
  intro audio video sdp
  have htoken : ∀ tok : Text, (tok.all fun c => !isSpace c) = true →
      ∀ c ∈ tok, isSpace c = false := by
    intro tok htok c hc
    simpa using List.all_eq_true.1 htok c hc
  have haudio : PlainMedia audio :=
    ⟨⟨htoken _ (by decide), htoken _ (by decide), by decide, by decide, by decide, by decide,
      by decide⟩, by decide, by decide⟩
  have hvideo : PlainMedia video :=
    ⟨⟨htoken _ (by decide), htoken _ (by decide), by decide, by decide, by decide, by decide,
      by decide⟩, by decide, by decide⟩
  have hmedia : ∀ m ∈ sdp.media, PlainMedia m :=
    List.forall_mem_cons.2 ⟨haudio, List.forall_mem_cons.2 ⟨hvideo, fun _ h => nomatch h⟩⟩
  exact parse_serialize_sdp sdp ⟨⟨by decide, by decide, by decide⟩, hmedia⟩

end CppMeet.Signaling.SdpRoundTrip
