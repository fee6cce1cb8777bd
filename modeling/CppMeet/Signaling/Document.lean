import Mathlib.Data.String.Basic

/-!
# JSON documents

The part of `nlohmann::json` that the signaling code uses. An object holds its members in key
order, the order of the underlying `std::map`. `none` stands for an exception. The parser, the
conversion of a `double` to an `int` and the check that a string is UTF-8 are outside the
repository; `JsonLib` names them.
-/

set_option autoImplicit false

namespace CppMeet.Signaling.Document

/-- A JSON value. A `double` is kept as its bit pattern. -/
inductive Json where
  | null
  | bool (b : Bool)
  | int (n : Int64)
  | uint (n : UInt64)
  | float (bits : UInt64)
  | str (s : String)
  | arr (elems : List Json)
  | obj (members : List (String × Json))

/-- What the signaling code takes from the library: `parse`, where `none` is a `parse_error`,
`static_cast<int>` of a `double`, and the text that `dump` makes of the bytes of a `std::string`.
Bytes that are not UTF-8 have none: `dump` throws a `type_error`. -/
structure JsonLib where
  parse : String → Option Json
  doubleToInt : UInt64 → Int32
  text : List UInt8 → Option String

/-- A library that parses nothing and knows the texts of ASCII strings. -/
def asciiLib : JsonLib where
  parse _ := none
  doubleToInt _ := 0
  text bytes :=
    if bytes.all (· < 0x80) then some (.ofList (bytes.map fun b => .ofNat b.toNat)) else none

/-- The value of the member `key`. -/
def member (key : String) : List (String × Json) → Option Json
  | [] => none
  | (k, v) :: rest => if k = key then some v else member key rest

/-- The members after `key` is set to `value`, with the key order kept. -/
def setMember (key : String) (value : Json) : List (String × Json) → List (String × Json)
  | [] => [(key, value)]
  | (k, v) :: rest =>
      if key < k then (key, value) :: (k, v) :: rest
      else if k = key then (key, value) :: rest
      else (k, v) :: setMember key value rest

theorem member_setMember (key : String) (value : Json) (l : List (String × Json)) :
    member key (setMember key value l) = some value := by
  induction l with
  | nil => simp [setMember, member]
  | cons p rest ih =>
      obtain ⟨k, v⟩ := p
      rw [setMember]
      split_ifs with hlt heq
      · simp [member]
      · simp [member]
      · rw [member, if_neg heq, ih]

/-- The other members stay as they are. -/
theorem member_setMember_of_ne {key key' : String} (hne : key' ≠ key) (value : Json)
    (l : List (String × Json)) : member key' (setMember key value l) = member key' l := by
  induction l with
  | nil => exact if_neg hne.symm
  | cons p rest ih =>
      obtain ⟨k, v⟩ := p
      rw [setMember]
      split_ifs with hlt heq
      · rw [member, if_neg hne.symm]
      · rw [member, if_neg hne.symm, member, if_neg (heq ▸ hne.symm)]
      · rw [member, ih, member]

namespace Json

/-- `j[key]` of a `j` with `j.contains(key)`, and `none` where `contains` is `false`. -/
def field (j : Json) (key : String) : Option Json :=
  match j with
  | obj members => member key members
  | _ => none

/-- `is_null()`. -/
def isNull : Json → Bool
  | null => true
  | _ => false

/-- `j[key] = value`. A `null` becomes an object; the other kinds have no members and throw. -/
def setField (j : Json) (key : String) (value : Json) : Option Json :=
  match j with
  | obj members => some (obj (setMember key value members))
  | null => some (obj [(key, value)])
  | _ => none

/-- `j.get<int>()`. Numbers and booleans are cast to `int`; the other kinds throw. -/
def getInt (lib : JsonLib) : Json → Option Int32
  | int n => some n.toInt32
  | uint n => some n.toUInt32.toInt32
  | float bits => some (lib.doubleToInt bits)
  | bool b => some (if b then 1 else 0)
  | _ => none

/-- Where a member can be set, the result is an object with the members of `j`, if it has any. -/
theorem exists_of_setField {j j' : Json} {key : String} {value : Json}
    (h : j.setField key value = some j') :
    ∃ members, j' = .obj (setMember key value members) ∧
      ∀ key', j.field key' = member key' members := by
  cases j with
  | obj members => exact ⟨members, (Option.some.inj h).symm, fun _ => rfl⟩
  | null => exact ⟨[], (Option.some.inj h).symm, fun _ => rfl⟩
  | bool _ => cases h
  | int _ => cases h
  | uint _ => cases h
  | float _ => cases h
  | str _ => cases h
  | arr _ => cases h

theorem field_setField {j j' : Json} {key : String} {value : Json}
    (h : j.setField key value = some j') : j'.field key = some value := by
  obtain ⟨members, rfl, -⟩ := exists_of_setField h
  exact member_setMember key value members

theorem field_setField_of_ne {j j' : Json} {key key' : String} {value : Json} (hne : key' ≠ key)
    (h : j.setField key value = some j') : j'.field key' = j.field key' := by
  obtain ⟨members, rfl, hfield⟩ := exists_of_setField h
  rw [hfield]
  exact member_setMember_of_ne hne value members

end Json

end CppMeet.Signaling.Document
