import Utxo.Json
import Utxo.Secp256k1.Signature

/-! # Keys and signatures described for readers -/

namespace Utxo.Secp256k1

namespace PublicKey

/-- Whether the long form of the key is read as the same key. -/
def isStable (key : PublicKey) : Bool :=
  match ofBytes key.toUncompressed with
  | .ok again => again.toCompressed = key.toCompressed
  | .error _ => false

def describe (key : PublicKey) : Json := .record [
  ("display", .hex key.toCompressed),
  ("compressed", .hex key.toCompressed),
  ("uncompressed", .hex key.toUncompressed),
  ("hash160", .hex key.hash160.val),
  ("round_trip", .bool key.isStable)]

end PublicKey

/-- The two numbers of a signature as they are, and its encoding. -/
def Signature.describe (s : Signature) : Json := .record [
  ("r", .hex (Bytes.ofNatBE 32 s.r.val)),
  ("s", .hex (Bytes.ofNatBE 32 s.s.val)),
  ("high_s", .bool s.isHighS),
  ("der", .hex s.toDer)]

end Utxo.Secp256k1
