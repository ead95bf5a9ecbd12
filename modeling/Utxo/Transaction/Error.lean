import Utxo.Interpreter.Failure

/-! # Errors about transactions -/

namespace Utxo

/-- The parts of an encoded transaction. -/
inductive TransactionPart where
  | version
  | inputCount
  | sourceId
  | outputIndex
  | unlockingScript
  | sequenceNumber
  | outputCount
  | satoshis
  | lockingScript
  | lockTime
  deriving DecidableEq, Repr

def TransactionPart.label : TransactionPart → String
  | version => "version"
  | inputCount => "input count"
  | sourceId => "source txid"
  | outputIndex => "output index"
  | unlockingScript => "unlocking script"
  | sequenceNumber => "sequence number"
  | outputCount => "output count"
  | satoshis => "satoshis"
  | lockingScript => "locking script"
  | lockTime => "lock time"

/-- A part that the bytes did not suffice for. -/
structure MissingPart where
  part : TransactionPart
  cause : Truncated
  deriving DecidableEq, Repr

inductive TransactionError where
  | missing (failure : MissingPart)
  | trailing (count : Nat)
  | noInput (index count : Nat)
  | hex (fault : Hex.Fault)
  | script (failure : Failure)
  deriving DecidableEq, Repr

def TransactionError.message : TransactionError → String
  | missing failure => s!"reading {failure.part.label}: {failure.cause.message}"
  | trailing count => s!"trailing {count} bytes after transaction"
  | noInput index count => noInputMessage index count
  | hex fault => "hex decode error: " ++ fault.message
  | script failure => "script evaluation failed: " ++ failure.message

end Utxo
