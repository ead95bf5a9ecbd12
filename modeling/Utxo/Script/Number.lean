import Utxo.Text.Hex

/-!
# Numbers in scripts

A number is a little-endian magnitude whose topmost bit is the sign. The empty byte string is zero,
and so is any string of zeros, with or without the sign.
-/

namespace Utxo.ScriptNumber

/-- The widest number that is read at all. -/
def maxWidth : Nat := 8

/-- The number that a byte string of at most `limit` bytes stands for. -/
def decode? (limit : Nat) (b : Bytes) : Option Int :=
  if min limit maxWidth < b.length then none
  else
    let sign := 1 <<< (8 * b.length - 1)
    let v := Bytes.toNatLE b
    if b ≠ [] ∧ sign ≤ v then some (-(v - sign : Nat)) else some v

/-- The fewest bytes with room for a magnitude and a sign. -/
def width (magnitude : Nat) : Nat := if magnitude = 0 then 0 else (magnitude.log2 + 1) / 8 + 1

/-- The shortest byte string that stands for a number. -/
def encode (n : Int) : Bytes :=
  let w := width n.natAbs
  Bytes.ofNatLE w (n.natAbs + if n < 0 then 1 <<< (8 * w - 1) else 0)

/-- Whether a byte string of any width stands for something other than zero. -/
def isTrue (b : Bytes) : Bool :=
  match b.getLast? with
  | none => false
  | some last => b.dropLast.any (· != 0) || last &&& 0x7f != 0

def ofBool (v : Bool) : Bytes := if v then [1] else []

end Utxo.ScriptNumber
