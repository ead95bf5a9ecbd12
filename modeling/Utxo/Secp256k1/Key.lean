import Utxo.Digest
import Utxo.Secp256k1.Curve
import Utxo.Text.Hex

/-! # Keys -/

namespace Utxo.Secp256k1

/-! ## Public keys -/

inductive PublicKeyError where
  | hex (fault : Hex.Fault)
  | empty
  | rejected
  deriving DecidableEq, Repr

def PublicKeyError.message : PublicKeyError → String
  | .hex fault => "invalid hex: " ++ fault.message
  | .empty => "invalid public key: pubkey bytes are empty"
  | .rejected => "invalid public key: signature error"

structure PublicKey where
  x : Coordinate
  y : Coordinate
  deriving DecidableEq, Repr

namespace PublicKey

def coordinate? (b : Bytes) : Option Coordinate :=
  let v := Bytes.toNatBE b
  if h : v < fieldOrder then some ⟨v, h⟩ else none

/-- The point over `x` whose second coordinate has the wanted parity. -/
def decompress? (odd : Bool) (x : Coordinate) : Option PublicKey := do
  let root ← squareRoot? (cubic x)
  let y := if (root.val % 2 == 1) == odd then root else -root
  return ⟨x, y⟩

/-- One coordinate behind a tag for the parity of the other one (02 even, 03 odd, 05 even), or
both behind 04. -/
def ofBytes (b : Bytes) : Except PublicKeyError PublicKey :=
  let key := match b.length, b with
    | 33, 0x02 :: x | 33, 0x05 :: x => (coordinate? x).bind (decompress? false)
    | 33, 0x03 :: x => (coordinate? x).bind (decompress? true)
    | 65, 0x04 :: xy => do
      let x ← coordinate? (xy.take 32)
      let y ← coordinate? (xy.drop 32)
      if isOnCurve x y then some ⟨x, y⟩ else none
    | _, _ => none
  match b, key with
  | [], _ => .error .empty
  | _, some key => .ok key
  | _, none => .error .rejected

def ofHex (text : String) : Except PublicKeyError PublicKey :=
  match Hex.decode text with
  | .ok b => ofBytes b
  | .error fault => .error (.hex fault)

def toCompressed (key : PublicKey) : Bytes :=
  (if key.y.val % 2 = 1 then 0x03 else 0x02) :: Bytes.ofNatBE 32 key.x.val

def toUncompressed (key : PublicKey) : Bytes :=
  0x04 :: (Bytes.ofNatBE 32 key.x.val ++ Bytes.ofNatBE 32 key.y.val)

def hash160 (key : PublicKey) : FixedBytes 20 := Digest.hash160 key.toCompressed

def point (key : PublicKey) : Point := .ofCoordinates key.x key.y

end PublicKey

/-! ## Private keys -/

inductive PrivateKeyError where
  | hex (fault : Hex.Fault)
  | badLength (length : Nat)
  | rejected
  deriving DecidableEq, Repr

def PrivateKeyError.message : PrivateKeyError → String
  | .hex fault => "invalid hex: " ++ fault.message
  | .badLength n => s!"invalid private key: expected 32 bytes, got {n}"
  | .rejected => "invalid private key: signature error"

structure PrivateKey where
  secret : Scalar
  secret_ne_zero : secret ≠ 0

namespace PrivateKey

def ofBytes (b : Bytes) : Except PrivateKeyError PrivateKey :=
  if b.length = 32 then
    let v := Bytes.toNatBE b
    if h : v < groupOrder then
      if h0 : (⟨v, h⟩ : Scalar) ≠ 0 then .ok ⟨⟨v, h⟩, h0⟩ else .error .rejected
    else .error .rejected
  else .error (.badLength b.length)

def ofHex (text : String) : Except PrivateKeyError PrivateKey :=
  match Hex.decode text with
  | .ok b => ofBytes b
  | .error fault => .error (.hex fault)

def toBytes (key : PrivateKey) : Bytes := Bytes.ofNatBE 32 key.secret.val

def publicKey (key : PrivateKey) : PublicKey :=
  let (x, y) := (Point.generator.scale key.secret.val).coordinates
  ⟨x, y⟩

end PrivateKey

end Utxo.Secp256k1
