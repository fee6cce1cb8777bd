import CppMeet.Lib.Run
import CppMeet.Signaling.SdpText

/-!
# Texts on which `Sdp::parse` throws

The extractions from a stream fail silently, and every `substr` starts inside of its string. What
is left is `std::stoi`, which converts the payload type of an rtpmap attribute. Such a line is
converted only when a media line stands somewhere before it.
-/

set_option autoImplicit false

namespace CppMeet.Signaling.SdpTotal

open CppMeet.Lib.Run CppMeet.Lib.TextStream CppMeet.Signaling.SdpText

/-- A line that `parse` takes for a media line. -/
def IsMedia (line : Text) : Prop := "m=".toList.isPrefixOf (stripCr line) = true

/-- The text starts, after white space, with a decimal integer in the range of an `int`. -/
def StartsWithInt (text : Text) : Prop :=
  ∃ z, (scanInt (text.dropWhile isSpace)).1 = some z ∧ -2 ^ 31 ≤ z ∧ z < 2 ^ 31

/-- An rtpmap line with a blank in its value, and no integer in front of the first blank. -/
def IsMalformed (line : Text) : Prop :=
  "a=rtpmap:".toList.isPrefixOf (stripCr line) = true ∧ ' ' ∈ (stripCr line).drop 9 ∧
    ¬ StartsWithInt (((stripCr line).drop 9).takeWhile (· ≠ ' '))

instance (line : Text) : Decidable (IsMedia line) := inferInstanceAs (Decidable (_ = _))

/-- `std::stoi` returns exactly on texts that start with an `int`. -/
theorem exists_stoi_iff (text : Text) : (∃ v, stoi text = .ok v) ↔ StartsWithInt text := by
  rw [stoi, StartsWithInt]
  cases (scanInt (text.dropWhile isSpace)).1 with
  | none => simp
  | some z =>
      dsimp only
      split_ifs with hrange
      · simp
        omega
      · simp
        omega

/-! ## One line -/

/-- An attribute is read without an exception exactly if the number of its `rtpmap` is an `int`. -/
theorem exists_parseAttr_iff (m : SdpMedia) (value : Text) :
    (∃ m', parseAttr m value = .ok m') ↔
      ("rtpmap:".toList.isPrefixOf value = true → ' ' ∈ value.drop 7 →
        StartsWithInt ((value.drop 7).takeWhile (· ≠ ' '))) := by
  rw [parseAttr]
  by_cases hkey : "rtpmap:".toList.isPrefixOf value = true
  · rw [if_pos hkey, ← exists_stoi_iff]
    dsimp only
    by_cases hblank : ' ' ∈ value.drop 7
    · rw [if_pos hblank]
      cases hstoi : stoi ((value.drop 7).takeWhile (· ≠ ' ')) with
      | error e =>
          refine iff_of_false ?_ fun h => ?_
          · rintro ⟨m', h⟩
            cases h
          · obtain ⟨v, hv⟩ := h hkey hblank
            cases hv
      | ok v => exact iff_of_true ⟨_, rfl⟩ fun _ _ => ⟨v, rfl⟩
    · rw [if_neg hblank]
      exact iff_of_true ⟨m, rfl⟩ fun _ h => absurd h hblank
  · -- the other attributes are stored or ignored
    rw [if_neg hkey]
    refine iff_of_true ?_ fun h => absurd h hkey
    split_ifs
    · exact ⟨_, rfl⟩
    · exact ⟨_, rfl⟩
    · exact ⟨_, rfl⟩
    · exact ⟨_, rfl⟩
    · exact ⟨_, rfl⟩
    · exact ⟨_, rfl⟩

/-- What `parseLine` sees of a line: no field, or a letter with a value. -/
theorem stripCr_cases (line : Text) :
    (∀ sdp, parseLine sdp line = .ok sdp) ∧ ¬ IsMedia line ∧ ¬ IsMalformed line ∨
      ∃ c value, stripCr line = c :: '=' :: value := by
  rw [IsMedia, IsMalformed]
  rcases hstrip : stripCr line with _ | ⟨c, _ | ⟨d, value⟩⟩
  · left
    simp only [parseLine, hstrip]
    exact ⟨fun _ => rfl, by decide, fun h => absurd h.1 (by decide)⟩
  · left
    simp only [parseLine, hstrip]
    exact ⟨fun _ => rfl, by simp [List.isPrefixOf], fun h => absurd h.1 (by simp [List.isPrefixOf])⟩
  · by_cases hd : d = '='
    · subst hd
      exact Or.inr ⟨c, value, rfl⟩
    · left
      refine ⟨fun sdp => ?_, ?_, ?_⟩
      · simp [parseLine, hstrip, hd]
        rfl
      · simp [List.isPrefixOf, Ne.symm hd]
      · simp [List.isPrefixOf, Ne.symm hd]

section Field

variable {line : Text} {c : Char} {value : Text} (h : stripCr line = c :: '=' :: value)

include h

theorem isMedia_iff : IsMedia line ↔ c = 'm' := by
  rw [IsMedia, h, show "m=".toList = ['m', '='] from rfl]
  simp only [List.isPrefixOf, BEq.rfl, Bool.and_true, beq_iff_eq]
  exact eq_comm

/-- A malformed line is an attribute that throws. -/
theorem isMalformed_iff : IsMalformed line ↔ c = 'a' ∧ ¬ ∃ m', parseAttr {} value = .ok m' := by
  have hkey : "a=rtpmap:".toList.isPrefixOf (c :: '=' :: value) = true ↔
      c = 'a' ∧ "rtpmap:".toList.isPrefixOf value = true := by
    rw [show "a=rtpmap:".toList = 'a' :: '=' :: "rtpmap:".toList from rfl]
    rw [List.isPrefixOf_cons_cons, List.isPrefixOf_cons_cons]
    simp only [BEq.rfl, Bool.true_and, Bool.and_eq_true, beq_iff_eq]
    exact and_congr_left fun _ => eq_comm
  rw [IsMalformed, h, hkey, exists_parseAttr_iff, List.drop_succ_cons, List.drop_succ_cons,
    and_assoc]
  push Not
  rfl

/-- A line that is no attribute is taken, and only a media line adds a media section. -/
theorem parseLine_of_ne (sdp : Sdp) (hc : c ≠ 'a') :
    ∃ sdp', parseLine sdp line = .ok sdp' ∧
      (sdp'.media ≠ [] ↔ sdp.media ≠ [] ∨ IsMedia line) := by
  rw [isMedia_iff h, parseLine]
  dsimp only
  rw [h, if_neg (by simp)]
  dsimp only [List.headD_cons]
  split
  · exact ⟨_, rfl, by simp⟩
  · exact ⟨_, rfl, by simp⟩
  · exact ⟨_, rfl, by simp⟩
  · exact ⟨_, rfl, by simp⟩
  · exact absurd rfl hc
  · rename_i hm _
    exact ⟨_, rfl, (or_iff_left hm).symm⟩

/-- An attribute line is handed to the last media section if there is one. -/
theorem parseLine_of_eq (sdp : Sdp) (hc : c = 'a') :
    parseLine sdp line =
      match sdp.media.getLast? with
      | some curMedia => (parseAttr curMedia value).map fun m =>
          { sdp with media := sdp.media.dropLast ++ [m] }
      | none => .ok sdp := by
  subst hc
  rw [parseLine]
  dsimp only
  rw [h, if_neg (by simp)]
  dsimp only [List.headD_cons]
  cases sdp.media.getLast? with
  | none => rfl
  | some m =>
      cases parseAttr m value with
      | error e => rfl
      | ok m' => rfl

end Field

/-- A line is taken unless it is malformed and a media section is there. -/
theorem exists_parseLine_iff (sdp : Sdp) (line : Text) :
    (∃ sdp', parseLine sdp line = .ok sdp') ↔ (sdp.media ≠ [] → ¬ IsMalformed line) := by
  rcases stripCr_cases line with ⟨hok, -, hwell⟩ | ⟨c, value, h⟩
  · exact iff_of_true ⟨sdp, hok sdp⟩ fun _ => hwell
  rw [isMalformed_iff h]
  by_cases hc : c = 'a'
  · rw [parseLine_of_eq h sdp hc, and_iff_right hc, not_not, exists_parseAttr_iff]
    cases hlast : sdp.media.getLast? with
    | none =>
        exact iff_of_true ⟨sdp, rfl⟩ fun hne => absurd (List.getLast?_eq_none_iff.1 hlast) hne
    | some m =>
        have hne : sdp.media ≠ [] := by
          intro hnil
          rw [hnil] at hlast
          cases hlast
        rw [forall_prop_of_true hne, ← exists_parseAttr_iff m]
        dsimp only
        cases parseAttr m value with
        | error e => exact iff_of_false (by rintro ⟨_, h⟩; cases h) (by rintro ⟨_, h⟩; cases h)
        | ok m' => exact iff_of_true ⟨_, rfl⟩ ⟨m', rfl⟩
  · obtain ⟨sdp', hok, -⟩ := parseLine_of_ne h sdp hc
    exact iff_of_true ⟨sdp', hok⟩ fun _ hbad => hc hbad.1

/-- Afterwards there is a media section if there was one, or if the line is a media line. -/
theorem media_parseLine {sdp sdp' : Sdp} {line : Text} (hok : parseLine sdp line = .ok sdp') :
    sdp'.media ≠ [] ↔ sdp.media ≠ [] ∨ IsMedia line := by
  rcases stripCr_cases line with ⟨hsame, hmedia, -⟩ | ⟨c, value, h⟩
  · rw [hsame] at hok
    cases hok
    exact (or_iff_left hmedia).symm
  by_cases hc : c = 'a'
  · -- an attribute changes the last section, if there is one, and adds none
    have hmedia : ¬ IsMedia line := by
      rw [isMedia_iff h, hc]
      decide
    rw [parseLine_of_eq h sdp hc] at hok
    rw [or_iff_left hmedia]
    cases hlast : sdp.media.getLast? with
    | none =>
        rw [hlast] at hok
        cases hok
        rfl
    | some m =>
        rw [hlast] at hok
        dsimp only at hok
        have hne : sdp.media ≠ [] := by
          intro hnil
          rw [hnil] at hlast
          cases hlast
        cases hattr : parseAttr m value with
        | error e =>
            rw [hattr] at hok
            cases hok
        | ok m' =>
            rw [hattr] at hok
            cases hok
            simp [hne]
  · -- any other line
    obtain ⟨sdp'', hok', hmedia⟩ := parseLine_of_ne h sdp hc
    rw [hok] at hok'
    cases hok'
    exact hmedia

/-! ## All lines -/

/-- Whether a media line has been seen. -/
def seeMedia (seen : Bool) (line : Text) : Bool := seen || decide (IsMedia line)

/-- A section has been seen exactly if a line of one was. -/
theorem run_seeMedia (seen : Bool) (lines : List Text) :
    run seeMedia seen lines = true ↔ seen = true ∨ ∃ line ∈ lines, IsMedia line := by
  induction lines generalizing seen with
  | nil => simp
  | cons line lines ih =>
      rw [run_cons, ih, seeMedia, Bool.or_eq_true, decide_eq_true_eq, List.exists_mem_cons_iff,
        or_assoc]

/-- All lines are read exactly if no malformed one comes behind a section. -/
theorem exists_foldlM_parseLine_iff (lines : List Text) :
    (∃ sdp, lines.foldlM parseLine {} = .ok sdp) ↔
      Along seeMedia (fun seen line => seen = true → ¬ IsMalformed line) false lines := by
  have hview : ∀ sdp line sdp', parseLine sdp line = .ok sdp' →
      decide (sdp'.media ≠ []) = seeMedia (decide (sdp.media ≠ [])) line := by
    intro sdp line sdp' hok
    rw [seeMedia, ← Bool.decide_or, decide_eq_decide]
    exact media_parseLine hok
  have hok : ∀ sdp line, (∃ sdp', parseLine sdp line = .ok sdp') ↔
      (decide (sdp.media ≠ []) = true → ¬ IsMalformed line) := by
    intro sdp line
    rw [exists_parseLine_iff, decide_eq_true_eq]
  exact exists_foldlM_iff (v := fun sdp : Sdp => decide (sdp.media ≠ [])) hok hview {} lines

theorem exists_parse_iff (text : Text) : (∃ sdp, parse text = .ok (some sdp)) ↔
    Along seeMedia (fun seen line => seen = true → ¬ IsMalformed line) false (getlines text) := by
  rw [← exists_foldlM_parseLine_iff, parse]
  cases (getlines text).foldlM parseLine {} with
  | error e => exact iff_of_false (by rintro ⟨_, h⟩; cases h) (by rintro ⟨_, h⟩; cases h)
  | ok sdp => exact iff_of_true ⟨sdp, rfl⟩ ⟨sdp, rfl⟩

/-- On every text `parse` returns a description or throws. It returns exactly when no rtpmap line
behind a media line has a blank in its value without an integer of `int` range in front of it. -/
theorem parse_returns_iff (text : Text) :
    (∃ sdp, parse text = .ok (some sdp)) ↔
      ∀ pre line post, getlines text = pre ++ line :: post → (∃ m ∈ pre, IsMedia m) →
        ¬ IsMalformed line := by
  rw [exists_parse_iff, along_iff_split]
  simp only [run_seeMedia, Bool.false_eq_true, false_or]

/-- One attribute behind a media line. -/
theorem parse_throws : ¬ ∀ text, ∃ sdp, parse text = .ok (some sdp) := by
  intro hall
  have hlines : getlines "m=audio\na=rtpmap:x PCMU/8000".toList =
      ["m=audio".toList, "a=rtpmap:x PCMU/8000".toList] := by decide
  have hnone : (scanInt ("x".toList.dropWhile isSpace)).1 = none := by decide
  have halong := (exists_parse_iff _).1 (hall "m=audio\na=rtpmap:x PCMU/8000".toList)
  rw [hlines] at halong
  refine halong.2.1 (by decide) ⟨by decide, by decide, ?_⟩
  rintro ⟨z, hz, -⟩
  exact Option.some_ne_none z (hz.symm.trans hnone)

end CppMeet.Signaling.SdpTotal
