import Utxo.Bytes
import Utxo.Json

/-!
# Writing JSON documents

Values are written without blanks. Integers beyond 2⁵³ − 1 are strings, so that no reader rounds
them; floating point numbers are the digits of their bits, and null if they are not finite.
-/

namespace Utxo

def Binary64.digits (x : Binary64) : String := Hex.encode (Bytes.ofNatBE 8 x.bits.toNat)

namespace Json

/-- The greatest integer that is written as a number. -/
def maxInteger : Nat := 9007199254740991

def escape (c : Char) : String :=
  if c = '"' then "\\\""
  else if c = '\\' then "\\\\"
  else if c.toNat < 0x20 then "\\u00" ++ Hex.encode [UInt8.ofNat c.toNat]
  else c.toString

def quoted (s : String) : String :=
  (s.toList.foldl (fun out c => out ++ escape c) "\"").push '"'

def integerText (n : Int) : String :=
  if n.natAbs ≤ maxInteger then toString n else quoted (toString n)

def floatText (x : Binary64) : String :=
  if x.isFinite then "\x7b\"f64\":" ++ quoted x.digits ++ "\x7d" else "null"

mutual

/-- Writes a value behind `out`. -/
def writeTo (out : String) : Json → String
  | .null => out ++ "null"
  | .bool b => out ++ (if b then "true" else "false")
  | .integer n => out ++ integerText n
  | .decimal literal => out ++ literal
  | .float x => out ++ floatText x
  | .string s => out ++ quoted (s.getD "")
  | .array items => (writeItems (out ++ "[") "" items) ++ "]"
  | .object members => (writeMembers (out ++ "\x7b") "" members) ++ "\x7d"

/-- Writes items, with `mark` in front of the first of them and commas in front of the others. -/
def writeItems (out mark : String) : List Json → String
  | [] => out
  | item :: rest => writeItems (item.writeTo (out ++ mark)) "," rest

def writeMembers (out mark : String) : List (Option String × Json) → String
  | [] => out
  | (name, value) :: rest =>
    writeMembers (value.writeTo (out ++ mark ++ quoted (name.getD "") ++ ":")) "," rest

end

def write (j : Json) : String := j.writeTo ""

end Json

end Utxo
