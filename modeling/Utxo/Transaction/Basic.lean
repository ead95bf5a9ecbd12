import Utxo.Bytes.Range
import Utxo.Script.Basic
import Utxo.Transaction.Id

/-!
# Transactions

Every part remembers where in its source it was read; a part that was not read has an empty range.
-/

namespace Utxo

/-- An output of an earlier transaction. -/
structure Outpoint where
  source : TransactionId
  index : UInt32
  deriving DecidableEq

/-- The outpoint of new coins, which come from no output. -/
def Outpoint.null : Outpoint := ⟨.null, 0xffffffff⟩

structure TransactionInput where
  outpoint : Outpoint
  unlocking : Script := {}
  sequence : UInt32 := 0xffffffff
  range : ByteRange := {}
  deriving DecidableEq

structure TransactionOutput where
  satoshis : UInt64
  locking : Script
  range : ByteRange := {}
  deriving DecidableEq

structure Transaction where
  version : UInt32 := 1
  inputs : List TransactionInput := []
  outputs : List TransactionOutput := []
  lockTime : UInt32 := 0
  range : ByteRange := {}
  deriving DecidableEq

/-! ## Values -/

/-- The sum, if it is a number of 64 bits. -/
def checkedAdd (a b : UInt64) : Option UInt64 :=
  if a.toNat + b.toNat < UInt64.size then some (a + b) else none

namespace Transaction

def outputTotal? (tx : Transaction) : Option UInt64 :=
  tx.outputs.foldlM (fun sum output => checkedAdd sum output.satoshis) 0

/-! ## Questions -/

def isCoinbase (tx : Transaction) : Bool :=
  match tx.inputs with
  | [input] => input.outpoint == .null
  | _ => false

def hasScriptFault (tx : Transaction) : Bool :=
  tx.inputs.any (·.unlocking.hasFault) || tx.outputs.any (·.locking.hasFault)

def spender? (tx : Transaction) (outpoint : Outpoint) : Option Nat :=
  tx.inputs.findIdx? (·.outpoint == outpoint)

end Transaction

end Utxo
