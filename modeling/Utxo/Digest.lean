import Utxo.Digest.Ripemd160
import Utxo.Digest.Sha256

/-! # Digests of byte strings -/

namespace Utxo.Digest

def sha256 (message : Bytes) : FixedBytes 32 := Sha256.hash message

/-- Twice SHA-256: what names a transaction, and what a signature signs. -/
def sha256d (message : Bytes) : FixedBytes 32 := sha256 (sha256 message)

def ripemd160 (message : Bytes) : FixedBytes 20 := Ripemd160.hash message

/-- RIPEMD-160 of SHA-256: what names a public key. -/
def hash160 (message : Bytes) : FixedBytes 20 := ripemd160 (sha256 message)

/-- A digest keyed by `key`: HMAC with SHA-256. -/
def hmac (key message : Bytes) : FixedBytes 32 :=
  let short : Bytes := if 64 < key.length then (sha256 key).val else key
  let block := short ++ List.replicate (64 - short.length) 0
  let inner : Bytes := (sha256 (block.map (· ^^^ 0x36) ++ message)).val
  sha256 (block.map (· ^^^ 0x5c) ++ inner)

end Utxo.Digest
