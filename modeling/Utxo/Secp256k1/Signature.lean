import Utxo.Bytes.Cursor
import Utxo.Secp256k1.Key

/-!
# Signatures

A signature is two non-zero scalars, R and S. Reading its DER form is lenient about padding and
about bytes behind the end; writing it is strict, and of the two signatures that differ in the sign
of S takes the one with the lower S.
-/

namespace Utxo.Secp256k1

/-! ## Errors -/

inductive Part where
  | r
  | s
  deriving DecidableEq, Repr

def Part.name : Part → String
  | .r => "R"
  | .s => "S"

inductive SignatureError where
  | noSequenceTag
  | noSequenceLength
  | sequenceTooLong
  | noMarker (part : Part)
  | noLength (part : Part)
  | tooLong (part : Part)
  | badLength (part : Part) (length : UInt8)
  | outOfRange
  | badDigest (length : Nat)
  | noNonce
  deriving DecidableEq, Repr

namespace SignatureError

def reason : SignatureError → String
  | .noSequenceTag => "malformed signature: no sequence tag"
  | .noSequenceLength => "malformed signature: no sequence length"
  | .sequenceTooLong => "malformed signature: sequence longer than input"
  | .noMarker part => s!"malformed signature: no {part.name} marker"
  | .noLength part => s!"malformed signature: no {part.name} length"
  | .tooLong part => s!"malformed signature: {part.name} longer than input"
  | .badLength part length => s!"malformed signature: bad {part.name} length {length}"
  | .outOfRange => "malformed signature: scalar out of range"
  | .badDigest length => s!"digest must be 32 bytes, got {length}"
  | .noNonce => "signature error"

def message (e : SignatureError) : String := "invalid signature: " ++ e.reason

end SignatureError

structure Signature where
  r : Scalar
  s : Scalar
  r_ne_zero : r ≠ 0
  s_ne_zero : s ≠ 0
  deriving DecidableEq

namespace Signature

def ofScalars? (r s : Scalar) : Option Signature :=
  if hr : r ≠ 0 then if hs : s ≠ 0 then some ⟨r, s, hr, hs⟩ else none else none

def ofNats (r s : Nat) : Except SignatureError Signature :=
  if h : r < groupOrder ∧ s < groupOrder then
    match ofScalars? ⟨r, h.1⟩ ⟨s, h.2⟩ with
    | some signature => .ok signature
    | none => .error .outOfRange
  else .error .outOfRange

/-! ## The sign of S -/

/-- Whether S lies in the upper half of the scalars. -/
def isHighS (signature : Signature) : Bool := groupOrder / 2 < signature.s.val

def lowS (signature : Signature) : Signature :=
  if signature.isHighS then
    match ofScalars? signature.r (-signature.s) with
    | some flipped => flipped
    | none => signature
  else signature

/-! ## DER -/

/-- One integer: a marker, a length, and that many bytes, of which at most 32 stand behind the
zeros in front. -/
def readInteger (part : Part) : Reader SignatureError Nat := do
  let marker ← Reader.byte.blame fun _ => .noMarker part
  if marker ≠ 0x02 then throw (.noMarker part)
  let length ← Reader.byte.blame fun _ => .noLength part
  let b ← (Reader.bytes length.toNat).blame fun _ => .tooLong part
  if b.isEmpty ∨ 32 < (b.dropWhile (· == 0)).length then throw (.badLength part length)
  return Bytes.toNatBE b

def readSequence : Reader SignatureError Bytes := do
  let tag ← Reader.byte.blame fun _ => .noSequenceTag
  if tag ≠ 0x30 then throw .noSequenceTag
  let length ← Reader.byte.blame fun _ => .noSequenceLength
  (Reader.bytes length.toNat).blame fun _ => .sequenceTooLong

def readIntegers : Reader SignatureError (Nat × Nat) := do
  let r ← readInteger .r
  let s ← readInteger .s
  return (r, s)

def ofDer (b : Bytes) : Except SignatureError Signature := do
  let body ← (readSequence.runFrom (.start b)).1
  let (r, s) ← (readIntegers.runFrom (.start body)).1
  ofNats r s

/-- An integer with no needless zero in front, and with one in front of a high bit. -/
def derInteger (v : Scalar) : Bytes :=
  let digits := (Bytes.ofNatBE 32 v.val).dropWhile (· == 0)
  let padded := if 0x80 ≤ digits.headD 0 then 0 :: digits else digits
  0x02 :: UInt8.ofNat padded.length :: padded

def toDer (signature : Signature) : Bytes :=
  let low := signature.lowS
  let body := derInteger low.r ++ derInteger low.s
  0x30 :: UInt8.ofNat body.length :: body

/-! ## Signing -/

/-- The scalar that a digest stands for: its first 32 bytes. -/
def digestScalar (digest : Bytes) : Scalar := Fin.ofNat _ (Bytes.toNatBE (digest.take 32))

/-- The state of the nonce generator: a key and the last output. -/
structure Drbg where
  key : Bytes
  last : Bytes

namespace Drbg

def reseed (g : Drbg) (seed : Bytes) : Drbg :=
  let key : Bytes := (Digest.hmac g.key (g.last ++ seed)).val
  ⟨key, (Digest.hmac key g.last).val⟩

def start (seed : Bytes) : Drbg :=
  let zero : Drbg := ⟨List.replicate 32 0, List.replicate 32 1⟩
  (zero.reseed (0 :: seed)).reseed (1 :: seed)

/-- The first output that is a scalar other than zero. An output misses with a chance below one in
2¹²⁷, so that the tries never run out. -/
def scalar? (tries : Nat) (g : Drbg) : Option Scalar :=
  match tries with
  | 0 => none
  | tries + 1 =>
    let out : Bytes := (Digest.hmac g.key g.last).val
    let v := Bytes.toNatBE out
    if h : v < groupOrder ∧ v ≠ 0 then some ⟨v, h.1⟩
    else scalar? tries (reseed ⟨g.key, out⟩ [0])

end Drbg

/-- Signs a digest, with a nonce that only key and digest decide (RFC 6979). -/
def sign (key : PrivateKey) (digest : Bytes) : Except SignatureError Signature := do
  if digest.length ≠ 32 then throw (.badDigest digest.length)
  let some nonce := (Drbg.start (key.toBytes ++ digest)).scalar? 64 | throw .noNonce
  let (x, _) := (Point.generator.scale nonce.val).coordinates
  let r : Scalar := Fin.ofNat _ x.val
  let s := inverse nonce * (digestScalar digest + r * key.secret)
  match ofScalars? r s with
  | some signature => return signature.lowS
  | none => throw .noNonce

/-! ## Verifying -/

/-- Whether the holder of the key signed the digest. A digest of less than 16 bytes has no
signatures. -/
def verify (signature : Signature) (digest : Bytes) (key : PublicKey) : Bool :=
  if digest.length < 16 then false
  else
    let low := signature.lowS
    let w := inverse low.s
    let u := Point.generator.scale (digestScalar digest * w).val
    let v := key.point.scale (low.r * w).val
    let (x, _) := (u.add v).coordinates
    Fin.ofNat _ x.val = low.r

end Signature

end Utxo.Secp256k1
