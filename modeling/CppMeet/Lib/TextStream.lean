import Mathlib.Data.Int.Notation
import Mathlib.Data.List.TakeWhile
import Mathlib.Data.UInt

/-!
# Text streams

Lines, tokens and decimal integers as `std::getline`, `operator>>` of `std::istringstream` and
`std::stoi` read them, in the C locale. Text is a list of characters. Each reader undoes the
corresponding writer in front of text that the reader does not take for a continuation
(`getlines_flatMap`, `token_append`, `int_append`, `stoi_showInt`).
-/

set_option autoImplicit false

namespace CppMeet.Lib.TextStream

/-- A string, for the functions that go through it character by character. -/
abbrev Text := List Char

/-! ## Lines -/

/-- `line` is the part of the current line that has been read. -/
def getlinesLoop (line : Text) : Text → List Text
  | [] => if line = [] then [] else [line]
  | c :: text =>
      if c = '\n' then line :: getlinesLoop [] text else getlinesLoop (line ++ [c]) text

/-- The lines that `while (std::getline(stream, line))` sees. A last line needs no newline. -/
def getlines (text : Text) : List Text := getlinesLoop [] text

theorem getlinesLoop_append {line : Text} (h : '\n' ∉ line) (read rest : Text) :
    getlinesLoop read (line ++ '\n' :: rest) = (read ++ line) :: getlinesLoop [] rest := by
  induction line generalizing read with
  | nil => simp [getlinesLoop]
  | cons c line ih =>
      obtain ⟨hc, hline⟩ := not_or.1 (mt List.mem_cons.2 h)
      rw [List.cons_append, getlinesLoop, if_neg (Ne.symm hc), ih hline, List.append_assoc]
      rfl

/-- Lines that were written one by one are read back. -/
theorem getlines_flatMap {lines : List Text} (h : ∀ line ∈ lines, '\n' ∉ line) :
    getlines (lines.flatMap (· ++ ['\n'])) = lines := by
  induction lines with
  | nil => rfl
  | cons line lines ih =>
      obtain ⟨hline, hlines⟩ := List.forall_mem_cons.1 h
      rw [List.flatMap_cons, List.append_assoc, getlines, List.singleton_append,
        getlinesLoop_append hline, ← getlines, ih hlines, List.nil_append]

/-! ## Decimal integers -/

/-- An integer as `operator<<` writes it. -/
def showInt (z : ℤ) : Text :=
  if z < 0 then '-' :: Nat.toDigits 10 z.natAbs else Nat.toDigits 10 z.natAbs

/-- Reads an optional sign and digits: the integer, if there is a digit, and the text after it. -/
def scanInt (text : Text) : Option ℤ × Text :=
  let body := if text.head? = some '-' ∨ text.head? = some '+' then text.tail else text
  let digits := body.takeWhile Char.isDigit
  let n : ℤ := Nat.ofDigitChars 10 digits 0
  (if digits = [] then none else some (if text.head? = some '-' then -n else n),
    body.dropWhile Char.isDigit)

/-- A text that does not begin with a character of the class. -/
def Stops (p : Char → Bool) (rest : Text) : Prop := ∀ c ∈ rest.head?, p c = false

/-- A run of characters up to one that stops it. -/
theorem takeWhile_append {p : Char → Bool} {l rest : Text} (hl : ∀ c ∈ l, p c = true)
    (hrest : Stops p rest) : (l ++ rest).takeWhile p = l ∧ (l ++ rest).dropWhile p = rest := by
  have hstop : rest.takeWhile p = [] ∧ rest.dropWhile p = rest := by
    cases rest with
    | nil => exact ⟨rfl, rfl⟩
    | cons c rest =>
        have hc : p c = false := hrest c rfl
        exact ⟨List.takeWhile_cons_of_neg (by simp [hc]), List.dropWhile_cons_of_neg (by simp [hc])⟩
  rw [List.takeWhile_append_of_pos hl, List.dropWhile_append_of_pos hl, hstop.1, hstop.2]
  exact ⟨List.append_nil l, rfl⟩

theorem head?_toDigits (n : ℕ) : ∃ c, (Nat.toDigits 10 n).head? = some c ∧ c.isDigit = true := by
  cases hdigits : Nat.toDigits 10 n with
  | nil => exact absurd hdigits Nat.toDigits_ne_nil
  | cons c cs =>
      refine ⟨c, rfl, Nat.isDigit_of_mem_toDigits (b := 10) (n := n) (by decide) (by decide) ?_⟩
      rw [hdigits]
      exact List.mem_cons_self

/-- Reading what was written. -/
theorem scanInt_append (z : ℤ) {rest : Text} (hrest : Stops Char.isDigit rest) :
    scanInt (showInt z ++ rest) = (some z, rest) := by
  have hmem : ∀ c ∈ Nat.toDigits 10 z.natAbs, c.isDigit = true :=
    fun c => Nat.isDigit_of_mem_toDigits (by decide) (by decide)
  obtain ⟨htake, hdrop⟩ := takeWhile_append hmem hrest
  obtain ⟨c, hhead, hdigit⟩ := head?_toDigits z.natAbs
  rw [showInt]
  split_ifs with hneg
  · simp only [scanInt, List.cons_append, List.head?_cons, true_or, if_true, List.tail_cons, htake,
      hdrop, if_neg Nat.toDigits_ne_nil, Nat.ofDigitChars_ten_toDigits]
    rw [show -((z.natAbs : ℕ) : ℤ) = z by omega]
  · have hsign : ∀ s : Char, s.isDigit = false →
        (Nat.toDigits 10 z.natAbs ++ rest).head? ≠ some s := by
      intro s hs heq
      rw [List.head?_append, hhead] at heq
      cases heq
      rw [hdigit] at hs
      cases hs
    simp only [scanInt, hsign '-' rfl, hsign '+' rfl, or_self, if_false, htake, hdrop,
      if_neg Nat.toDigits_ne_nil, Nat.ofDigitChars_ten_toDigits]
    rw [show ((z.natAbs : ℕ) : ℤ) = z by omega]

/-- An integer does not begin with a character that is neither a digit nor its sign. -/
theorem stops_showInt {p : Char → Bool} (hminus : p '-' = false)
    (hdigit : ∀ c, c.isDigit = true → p c = false) (z : ℤ) (rest : Text) :
    Stops p (showInt z ++ rest) := by
  intro c hc
  obtain ⟨d, hhead, hd⟩ := head?_toDigits z.natAbs
  rw [showInt] at hc
  split_ifs at hc
  · cases hc
    exact hminus
  · rw [List.head?_append, hhead] at hc
    cases hc
    exact hdigit _ hd

/-! ## Streams -/

/-- White space of the C locale. -/
def isSpace (c : Char) : Bool := c = ' ' ∨ 9 ≤ c.toNat ∧ c.toNat ≤ 13

/-- An input stream: the text that is left, and whether a read has failed. -/
structure IStream where
  rest : Text
  fail : Bool := false
  deriving DecidableEq, Repr

/-- `stream >> s` for a string that was empty before. -/
def token (s : IStream) : Text × IStream :=
  if s.fail then ([], s)
  else
    let text := s.rest.dropWhile isSpace
    let tok := text.takeWhile fun c => !isSpace c
    (tok, { rest := text.dropWhile fun c => !isSpace c, fail := tok = [] })

/-- The common part of the integer reads: white space, then an integer. -/
def scan (s : IStream) : Option ℤ × Text :=
  if s.fail then (none, s.rest) else scanInt (s.rest.dropWhile isSpace)

/-- `stream >> v` for an `int` that was 0 before: a value out of range is cut to the range and the
read fails. -/
def int (s : IStream) : Int32 × IStream :=
  match scan s with
  | (none, rest) => (0, { rest := rest, fail := true })
  | (some z, rest) =>
      -- out of range, the nearest value is stored with the failure
      if z < -2 ^ 31 then (Int32.minValue, { rest := rest, fail := true })
      else if 2 ^ 31 ≤ z then (Int32.maxValue, { rest := rest, fail := true })
      else (Int32.ofInt z, { rest := rest })

/-- `stream >> v` for a `uint16_t` that was 0 before. A minus sign negates the value modulo
`2 ^ 16`. -/
def uint16 (s : IStream) : UInt16 × IStream :=
  match scan s with
  | (none, rest) => (0, { rest := rest, fail := true })
  | (some z, rest) =>
      if 2 ^ 16 ≤ z.natAbs then (0xFFFF, { rest := rest, fail := true })
      else (UInt16.ofInt z, { rest := rest })

theorem length_scanInt_lt {text rest : Text} {z : ℤ} (h : scanInt text = (some z, rest)) :
    rest.length < text.length := by
  simp only [scanInt, Prod.mk.injEq] at h
  obtain ⟨hsome, rfl⟩ := h
  generalize hbody :
    (if text.head? = some '-' ∨ text.head? = some '+' then text.tail else text) = body at hsome ⊢
  have hle : body.length ≤ text.length := by
    rw [← hbody]
    split
    · rw [List.length_tail]
      exact Nat.sub_le _ _
    · exact Nat.le_refl _
  by_cases hdigits : body.takeWhile Char.isDigit = []
  · rw [if_pos hdigits] at hsome
    cases hsome
  · have hpos := List.length_pos_iff.2 hdigits
    have hsum := congrArg List.length
      (List.takeWhile_append_dropWhile (p := Char.isDigit) (l := body))
    rw [List.length_append] at hsum
    omega

theorem length_scan_lt {s : IStream} {z : ℤ} {rest : Text} (h : scan s = (some z, rest)) :
    rest.length < s.rest.length := by
  rw [scan] at h
  split at h
  · cases h
  · exact Nat.lt_of_lt_of_le (length_scanInt_lt h) (List.dropWhile_sublist _).length_le

/-- An integer read that succeeds takes something from the stream. -/
theorem length_int_lt {s : IStream} (h : (int s).2.fail = false) :
    (int s).2.rest.length < s.rest.length := by
  rw [int] at h ⊢
  rcases hscan : scan s with ⟨v, rest⟩
  rw [hscan] at h
  cases v with
  | none => cases h
  | some z =>
      have hlt := length_scan_lt hscan
      dsimp only
      split_ifs
      · exact hlt
      · exact hlt
      · exact hlt

/-- `while (stream >> v)`. -/
def ints (s : IStream) : List Int32 :=
  if (int s).2.fail = false then (int s).1 :: ints (int s).2 else []
termination_by s.rest.length
decreasing_by
  rename_i h
  exact length_int_lt h

/-! ## Reading whatever is there -/

theorem newline_not_mem_getlinesLoop {line : Text} (h : '\n' ∉ line) (text : Text) :
    ∀ l ∈ getlinesLoop line text, '\n' ∉ l := by
  induction text generalizing line with
  | nil =>
      rw [getlinesLoop]
      split
      · exact List.forall_mem_nil _
      · exact List.forall_mem_singleton.2 h
  | cons c text ih =>
      rw [getlinesLoop]
      split
      · exact List.forall_mem_cons.2 ⟨h, ih List.not_mem_nil⟩
      · rename_i hc
        apply ih
        rw [List.mem_append, List.mem_singleton]
        exact not_or.2 ⟨h, Ne.symm hc⟩

theorem newline_not_mem_getlines (text : Text) : ∀ line ∈ getlines text, '\n' ∉ line :=
  newline_not_mem_getlinesLoop List.not_mem_nil text

theorem isSpace_of_mem_token (s : IStream) : ∀ c ∈ (token s).1, isSpace c = false := by
  intro c hc
  rw [token] at hc
  split at hc
  · exact absurd hc List.not_mem_nil
  · have hclass := List.mem_takeWhile_imp hc
    rwa [Bool.not_eq_true'] at hclass

/-- A read that finds no token fails. -/
theorem fail_of_token_nil {s : IStream} (h : (token s).1 = []) : (token s).2.fail = true := by
  rw [token] at h ⊢
  split
  · rename_i hfail
    exact hfail
  · rename_i hfail
    rw [if_neg hfail] at h
    exact decide_eq_true h

/-! Once a read has failed, nothing more is read. -/

theorem token_fail {s : IStream} (h : s.fail = true) : token s = ([], s) := by
  rw [token, if_pos h]

theorem uint16_fail {s : IStream} (h : s.fail = true) : uint16 s = (0, s) := by
  rw [uint16, scan, if_pos h]
  exact congrArg (fun b => ((0 : UInt16), IStream.mk s.rest b)) h.symm

theorem ints_fail {s : IStream} (h : s.fail = true) : ints s = [] := by
  rw [ints, int, scan, if_pos h]
  exact if_neg Bool.false_ne_true.symm

/-! ## Reading what was written -/

section RoundTrip

variable {rest : Text}

theorem stops_of_space (hrest : ∀ c ∈ rest.head?, isSpace c = true) :
    Stops (fun c => !isSpace c) rest ∧ Stops Char.isDigit rest := by
  constructor
  · intro c hc
    simp [hrest c hc]
  · intro c hc
    have hspace := hrest c hc
    by_contra hdigit
    simp only [Bool.not_eq_false, Char.isDigit, Bool.and_eq_true, decide_eq_true_eq] at hdigit
    simp only [isSpace, decide_eq_true_eq] at hspace
    have hlow : 48 ≤ c.toNat := UInt32.le_iff_toNat_le.1 hdigit.1
    rcases hspace with rfl | ⟨_, hhigh⟩
    · exact absurd hlow (by decide)
    · omega

theorem isSpace_of_mem_blank : ∀ c ∈ [' '], isSpace c = true := List.forall_mem_singleton.2 rfl

/-- A token after a separator, in front of white space or the end. -/
theorem token_append (space : Text) {tok : Text} (hspace : ∀ c ∈ space, isSpace c = true)
    (hne : tok ≠ []) (htok : ∀ c ∈ tok, isSpace c = false)
    (hrest : ∀ c ∈ rest.head?, isSpace c = true) :
    token { rest := space ++ (tok ++ rest) } = (tok, { rest := rest }) := by
  have hstops : Stops isSpace (tok ++ rest) := by
    intro c hc
    rw [List.head?_append_of_ne_nil _ hne] at hc
    exact htok c (List.mem_of_mem_head? hc)
  obtain ⟨_, hdrop⟩ := takeWhile_append hspace hstops
  obtain ⟨htake, hdrop'⟩ := takeWhile_append (p := fun c => !isSpace c) (l := tok)
    (fun c hc => by simp [htok c hc]) (stops_of_space hrest).1
  simp only [token, hdrop, htake, hdrop', hne, decide_false]
  rfl

/-- A written number is read back behind white space. -/
theorem scan_append (space : Text) (hspace : ∀ c ∈ space, isSpace c = true) (z : ℤ)
    (hrest : ∀ c ∈ rest.head?, isSpace c = true) :
    scan { rest := space ++ (showInt z ++ rest) } = (some z, rest) := by
  have hdigit : ∀ c : Char, c.isDigit = true → isSpace c = false := by
    intro c hc
    by_contra hspace
    have hstops : Stops Char.isDigit [c] := (stops_of_space (by simpa using hspace)).2
    have hstop := hstops c rfl
    rw [hc] at hstop
    cases hstop
  obtain ⟨_, hdrop⟩ := takeWhile_append hspace (stops_showInt rfl hdigit z rest)
  simp only [scan, hdrop, scanInt_append z (stops_of_space hrest).2]
  rfl

theorem int_append (space : Text) (hspace : ∀ c ∈ space, isSpace c = true) (v : Int32)
    (hrest : ∀ c ∈ rest.head?, isSpace c = true) :
    int { rest := space ++ (showInt v.toInt ++ rest) } = (v, { rest := rest }) := by
  have hlow := v.le_toInt
  have hhigh := v.toInt_lt
  rw [int, scan_append space hspace _ hrest]
  dsimp only
  rw [if_neg (by omega), if_neg (by omega), Int32.ofInt_toInt]

theorem uint16_append (space : Text) (hspace : ∀ c ∈ space, isSpace c = true) (v : UInt16)
    (hrest : ∀ c ∈ rest.head?, isSpace c = true) :
    uint16 { rest := space ++ (showInt v.toNat ++ rest) } = (v, { rest := rest }) := by
  have hlt := v.toNat_lt
  have hof : UInt16.ofInt v.toNat = v := by
    rw [← UInt16.toNat_inj, UInt16.ofInt, UInt16.toNat_ofNat']
    omega
  rw [uint16, scan_append space hspace _ hrest]
  dsimp only
  rw [if_neg (by omega), hof]

/-- Integers, each after a blank, up to the end of the text. -/
theorem ints_flatMap (vs : List Int32) :
    ints { rest := vs.flatMap fun v => ' ' :: showInt v.toInt } = vs := by
  induction vs with
  | nil =>
      rw [ints, if_neg (by decide)]
  | cons v vs ih =>
      have hrest : ∀ c ∈ (vs.flatMap fun v => ' ' :: showInt v.toInt).head?, isSpace c = true := by
        cases vs with
        | nil =>
            intro c hc
            cases hc
        | cons w vs =>
            intro c hc
            cases hc
            rfl
      have hint := int_append [' '] isSpace_of_mem_blank v hrest
      rw [ints, List.flatMap_cons]
      change int ⟨' ' :: (showInt v.toInt ++ _), false⟩ = _ at hint
      simp only [List.cons_append, hint, if_true, ih]

end RoundTrip

/-! ## `std::stoi` -/

/-- The exceptions of `std::stoi`. -/
inductive StdException where
  | invalidArgument
  | outOfRange
  deriving DecidableEq, Repr

/-- White space, then an integer; what follows it is ignored. -/
def stoi (text : Text) : Except StdException Int32 :=
  match (scanInt (text.dropWhile isSpace)).1 with
  | none => .error .invalidArgument
  | some z => if z < -2 ^ 31 ∨ 2 ^ 31 ≤ z then .error .outOfRange else .ok (Int32.ofInt z)

/-- `std::stoi` reads a written number back. -/
theorem stoi_showInt (v : Int32) : stoi (showInt v.toInt) = .ok v := by
  have hlow := v.le_toInt
  have hhigh := v.toInt_lt
  have hscan : scan { rest := [] ++ (showInt v.toInt ++ []) } = (some v.toInt, []) :=
    scan_append [] (fun _ h => nomatch h) v.toInt (fun _ h => nomatch h)
  rw [List.nil_append, List.append_nil] at hscan
  have hscan' : scanInt ((showInt v.toInt).dropWhile isSpace) = (some v.toInt, []) := hscan
  rw [stoi, hscan']
  dsimp only
  rw [if_neg (by omega), Int32.ofInt_toInt]

end CppMeet.Lib.TextStream
