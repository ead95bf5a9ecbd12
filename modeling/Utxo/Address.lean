import Utxo.Text.Base58
import Utxo.Text.Hex

/-!
# Addresses

An address is a public key hash in checked base 58 behind a byte for the network.
-/

namespace Utxo

inductive Network where
  | mainnet
  | testnet
  deriving DecidableEq, Repr

namespace Network

def name : Network → String
  | mainnet => "mainnet"
  | testnet => "testnet"

def version : Network → UInt8
  | mainnet => 0x00
  | testnet => 0x6f

def ofVersion? (v : UInt8) : Option Network :=
  if v = mainnet.version then some mainnet
  else if v = testnet.version then some testnet
  else none

end Network

inductive AddressError where
  | base58 (error : Base58.Error)
  | badLength (address : String) (length : Nat)
  | unsupportedVersion (version : UInt8)
  deriving DecidableEq, Repr

def AddressError.message : AddressError → String
  | .base58 e => "primitives error: " ++ e.message
  | .badLength address n => s!"invalid address: '{address}' decodes to {n} bytes, expected 21"
  | .unsupportedVersion v => "unsupported address version 0x" ++ Hex.encode [v]

/-- How public key hashes are shown. -/
abbrev AddressEncoder := FixedBytes 20 → String

namespace Address

def encode (network : Network) (hash : FixedBytes 20) : String :=
  Base58.encodeChecked (network.version :: hash.val)

/-- The hash in an address of either network. -/
def decode (address : String) : Except AddressError (FixedBytes 20) :=
  match Base58.decodeChecked address with
  | .error e => .error (.base58 e)
  | .ok payload =>
    if h : payload.length = 21 then
      let version := payload.headD 0
      match Network.ofVersion? version with
      | none => .error (.unsupportedVersion version)
      | some _ => .ok ⟨payload.tail, by simp [h]⟩
    else .error (.badLength address payload.length)

def ofPublicKey (encoder : AddressEncoder) (key : Bytes) : String := encoder (Digest.hash160 key)

end Address

end Utxo
