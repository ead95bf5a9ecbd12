import Utxo.Digest
import Utxo.Text.Quoted
import Utxo.Text.Radix
import Utxo.Text.Utf8

/-!
# Base 58

A byte string as one big-endian number in base 58, with a `1` for each zero byte in front. The
checked form carries the first four bytes of the digest of its payload behind it.
-/

namespace Utxo.Base58

inductive Error where
  | badCharacter (byte : UInt8) (index : Nat)
  | notAscii (index : Nat)
  | tooShort
  | checksum
  deriving DecidableEq, Repr

def Error.message : Error → String
  | .badCharacter b i =>
    s!"invalid base58: provided string contained invalid character {Text.quotedByte b} at byte {i}"
  | .notAscii i =>
    s!"invalid base58: provided string contained non-ascii character starting at byte {i}"
  | .tooShort => "invalid base58: data too short for checksum"
  | .checksum => "checksum mismatch"

/-! ## Digits -/

def alphabet : List Char := "123456789ABCDEFGHJKLMNPQRSTUVWXYZabcdefghijkmnopqrstuvwxyz".toList

def digit (n : Nat) : Char := alphabet.getD n '1'

def value? (c : Char) : Option Nat := alphabet.idxOf? c

/-! ## Plain -/

def encode (b : Bytes) : String :=
  let zeros := (b.takeWhile (· == 0)).length
  let digits := (Radix.digits 58 (Bytes.toNatBE b)).reverse
  String.ofList (List.replicate zeros '1' ++ digits.map digit)

/-- The digits of a text, the first of them at `index`. -/
def values (index : Nat) : Bytes → Except Error (List Nat)
  | [] => .ok []
  | b :: rest =>
    if 0x80 ≤ b then .error (.notAscii index)
    else match value? (Char.ofNat b.toNat) with
      | none => .error (.badCharacter b index)
      | some v => do return v :: (← values (index + 1) rest)

/-- Places in the text count in bytes. -/
def decode (text : String) : Except Error Bytes := do
  let digits ← values 0 (Utf8.encode text)
  let zeros := (digits.takeWhile (· == 0)).length
  let number := Radix.value 58 digits.reverse
  return List.replicate zeros 0 ++ ((Radix.digits 256 number).map UInt8.ofNat).reverse

/-! ## Checked -/

def checksum (payload : Bytes) : Bytes := (Digest.sha256d payload).val.take 4

def encodeChecked (payload : Bytes) : String := encode (payload ++ checksum payload)

def decodeChecked (text : String) : Except Error Bytes := do
  let b ← decode text
  if b.length < 4 then throw .tooShort
  let payload := b.take (b.length - 4)
  if b.drop (b.length - 4) = checksum payload then return payload else throw .checksum

end Utxo.Base58
