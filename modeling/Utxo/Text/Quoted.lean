/-!
# A byte in quotes

How an error message shows the byte that is to blame: as the Latin-1 character with that number,
between apostrophes, escaped where it would not show.
-/

namespace Utxo.Text

/-- Latin-1 characters with no visible form: the controls, the no-break space, the soft hyphen. -/
def isHidden (b : UInt8) : Bool := b < 0x20 || (0x7f ≤ b && b ≤ 0xa0) || b == 0xad

/-- The fewest lowercase hex digits of a byte. -/
def shortHex (b : UInt8) : String := String.ofList (Nat.toDigits 16 b.toNat)

def quotedByte (b : UInt8) : String :=
  let c := Char.ofNat b.toNat
  let shown :=
    if c = '\n' then "\\n"
    else if c = '\r' then "\\r"
    else if c = '\t' then "\\t"
    else if c = '\'' then "\\'"
    else if c = '\\' then "\\\\"
    else if b = 0 then "\\0"
    else if isHidden b then "\\u\x7b" ++ shortHex b ++ "\x7d"
    else c.toString
  "'" ++ shown ++ "'"

end Utxo.Text
