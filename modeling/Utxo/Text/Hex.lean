import Utxo.Text.Quoted
import Utxo.Text.Utf8

/-! # Hexadecimal text -/

namespace Utxo.Hex

/-- What is wrong with a text that is not hexadecimal. -/
inductive Fault where
  | oddLength
  | badByte (byte : UInt8) (index : Nat)
  deriving DecidableEq, Repr

def Fault.message : Fault → String
  | .oddLength => "Odd number of digits"
  | .badByte b i => s!"Invalid character {Text.quotedByte b} at position {i}"

def digit (n : Nat) : Char := "0123456789abcdef".toList.getD n '0'

/-- Two lowercase digits for each byte. -/
def encode (b : Bytes) : String :=
  String.ofList (b.flatMap fun x => [digit (x.toNat / 16), digit (x.toNat % 16)])

def value? (b : UInt8) : Option Nat :=
  if 0x30 ≤ b ∧ b ≤ 0x39 then some (b.toNat - 0x30)
  else if 0x61 ≤ b ∧ b ≤ 0x66 then some (b.toNat - 0x61 + 10)
  else if 0x41 ≤ b ∧ b ≤ 0x46 then some (b.toNat - 0x41 + 10)
  else none

/-- One byte from each pair of digits, the first of them at `index`. -/
def decodePairs (index : Nat) : Bytes → Except Fault Bytes
  | [] => .ok []
  | [_] => .error .oddLength
  | high :: low :: rest =>
    match value? high, value? low with
    | none, _ => .error (.badByte high index)
    | some _, none => .error (.badByte low (index + 1))
    | some h, some l => do return UInt8.ofNat (16 * h + l) :: (← decodePairs (index + 2) rest)

/-- The bytes that a text of digits of either case stands for. The length is checked first, and
places count in bytes. -/
def decode (text : String) : Except Fault Bytes :=
  let b := Utf8.encode text
  if b.length % 2 = 1 then .error .oddLength else decodePairs 0 b

/-- Whether digits of either case spell out the bytes. -/
def spells (text : String) (b : Bytes) : Bool := text.toList.map Char.toLower == (encode b).toList

end Utxo.Hex
