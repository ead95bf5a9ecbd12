import Utxo.Address
import Utxo.Envelope.Basic

/-!
# What a script is for

A locking script may name the one who can spend, or be an envelope; an unlocking script may show
who spent. A script with a fault is neither.
-/

namespace Utxo

/-- The owner of a public key. -/
structure Party where
  address : String
  hash : FixedBytes 20
  /-- The key, where the script shows it. -/
  key? : Option Bytes := none
  deriving DecidableEq

inductive ScriptClass where
  | party (party : Party)
  | envelope (envelope : Envelope)
  deriving DecidableEq

namespace Script

/-- The hash in a script that pays to a public key hash. -/
def paidHash? (s : Script) : Option (FixedBytes 20) :=
  match s.operations with
  | [.code Opcode.dup, .code Opcode.hash160, .push _ b _, .code Opcode.equalVerify,
      .code Opcode.checkSig] =>
    if h : b.length = 20 then some ⟨b, h⟩ else none
  | _ => none

/-- What stands behind a first push and a return: the operand there, and the operations behind
it. -/
def returnedData? (s : Script) : Option (Bytes × List Operation) :=
  match s.operations with
  | first :: .code Opcode.opReturn :: third :: rest =>
    if first.isPush then third.operand?.map (·, rest) else none
  | _ => none

/-- Fails only if an envelope is announced and is not there. -/
def lockingClass? (encoder : AddressEncoder) (s : Script) :
    Except EnvelopeError (Option ScriptClass) :=
  if s.hasFault then .ok none
  else
    match s.paidHash?, s.returnedData? with
    | some hash, _ => .ok (some (.party { address := encoder hash, hash }))
    | none, some (marker, rest) =>
      Option.map ScriptClass.envelope <$> ((Envelope.read? marker).runFrom rest).1
    | none, none => .ok none

/-- Two pushes are a signature and a public key. -/
def unlockingClass? (encoder : AddressEncoder) (s : Script) : Option ScriptClass :=
  match s.hasFault, s.operations with
  | false, [signature, key] =>
    if signature.isPush ∧ key.isPush then
      key.operand?.map fun key =>
        let hash := Digest.hash160 key
        .party { address := encoder hash, hash, key? := some key }
    else none
  | _, _ => none

end Script

end Utxo
