import CppMeet.Lib.TextStream

/-!
# Session descriptions

The subset of SDP that the signaling server and its clients exchange. `serialize` writes one field a
line and `parse` reads lines in any order; attribute lines belong to the last media line before
them. `parse` can throw, because it converts the payload type of an rtpmap line with `std::stoi`.
-/

set_option autoImplicit false

namespace CppMeet.Signaling.SdpText

open CppMeet.Lib.TextStream

/-- A media section, with the attributes the parser knows. -/
structure SdpMedia where
  type : Text := []
  port : UInt16 := 9
  proto : Text := []
  fmts : List Int32 := []
  fingerprint : Text := []
  iceUfrag : Text := []
  icePwd : Text := []
  candidate : Text := []
  rtpmap : List (Int32 × Text) := []
  deriving DecidableEq, Repr

/-- A session description. -/
structure Sdp where
  version : Text := "0".toList
  origin : Text := []
  sessionName : Text := "-".toList
  media : List SdpMedia := []
  deriving DecidableEq, Repr

/-! ## Writing -/

/-- The text of an `m=` line after the `m=`. -/
def mediaValue (m : SdpMedia) : Text :=
  m.type ++ " ".toList ++ showInt m.port.toNat ++ " ".toList ++ m.proto ++
    m.fmts.flatMap fun pt => " ".toList ++ showInt pt.toInt

/-- An attribute that is left out when it is empty. -/
def optionalAttr (key value : Text) : List Text := if value = [] then [] else [key ++ value]

/-- The value of an `rtpmap` attribute. -/
def rtpmapValue (entry : Int32 × Text) : Text :=
  "rtpmap:".toList ++ showInt entry.1.toInt ++ " ".toList ++ entry.2

/-- The texts of the `a=` lines after the `a=`. -/
def attrValues (m : SdpMedia) : List Text :=
  optionalAttr "ice-ufrag:".toList m.iceUfrag ++ optionalAttr "ice-pwd:".toList m.icePwd ++
    optionalAttr "fingerprint:".toList m.fingerprint ++
    optionalAttr "candidate:".toList m.candidate ++ m.rtpmap.map rtpmapValue

/-- The lines of a media section. -/
def mediaLines (m : SdpMedia) : List Text :=
  ("m=".toList ++ mediaValue m) :: (attrValues m).map ("a=".toList ++ ·)

/-- All lines, without their ends. -/
def lines (sdp : Sdp) : List Text :=
  ["v=".toList ++ sdp.version, "o=".toList ++ sdp.origin, "s=".toList ++ sdp.sessionName,
    "t=0 0".toList] ++ sdp.media.flatMap mediaLines

/-- The text, each line ended by a carriage return and a line feed. -/
def serialize (sdp : Sdp) : Text := (lines sdp).flatMap (· ++ "\r\n".toList)

/-! ## Reading -/

/-- The value of an `m=` line: type, port, proto and formats. -/
def parseMedia (value : Text) : SdpMedia :=
  let ms : IStream := { rest := value }
  let (type, ms) := token ms
  let (port, ms) := uint16 ms
  let (proto, ms) := token ms
  { type := type, port := port, proto := proto, fmts := ints ms }

/-- The value of an `a=` line, for the current media section. -/
def parseAttr (m : SdpMedia) (value : Text) : Except StdException SdpMedia :=
  if "rtpmap:".toList.isPrefixOf value then
    let rest := value.drop 7
    if ' ' ∈ rest then do
      let pt ← stoi (rest.takeWhile (· ≠ ' '))
      let codec := (rest.dropWhile (· ≠ ' ')).drop 1
      return { m with rtpmap := m.rtpmap ++ [(pt, codec)] }
    -- a line without a blank is skipped
    else return m
  else if "fingerprint:".toList.isPrefixOf value then return { m with fingerprint := value.drop 12 }
  else if "ice-ufrag:".toList.isPrefixOf value then return { m with iceUfrag := value.drop 10 }
  else if "ice-pwd:".toList.isPrefixOf value then return { m with icePwd := value.drop 8 }
  else if "candidate:".toList.isPrefixOf value then
    -- the first candidate of a section stays
    if m.candidate = [] then return { m with candidate := value.drop 10 } else return m
  else return m

/-- Removes one `\r` at the end of a line. -/
def stripCr (line : Text) : Text := if line.getLast? = some '\r' then line.dropLast else line

/-- One line. The current media section is the last one; without one, attributes are ignored. -/
def parseLine (sdp : Sdp) (line : Text) : Except StdException Sdp :=
  let line := stripCr line
  -- not of the form `x=`
  if line.length < 2 ∨ line.getD 1 ' ' ≠ '=' then return sdp
  else
    let value := line.drop 2
    match line.headD ' ' with
    | 'v' => return { sdp with version := value }
    | 'o' => return { sdp with origin := value }
    | 's' => return { sdp with sessionName := value }
    | 'm' => return { sdp with media := sdp.media ++ [parseMedia value] }
    | 'a' =>
        match sdp.media.getLast? with
        | some curMedia => do
            let m ← parseAttr curMedia value
            return { sdp with media := sdp.media.dropLast ++ [m] }
        -- an attribute in front of all media sections
        | none => return sdp
    | _ => return sdp

/-- The lines are read one after the other; an exception of a number leaves the parser. -/
def parse (text : Text) : Except StdException (Option Sdp) := do
  let sdp ← (getlines text).foldlM parseLine {}
  return some sdp

end CppMeet.Signaling.SdpText
