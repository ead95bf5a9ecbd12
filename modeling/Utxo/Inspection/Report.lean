import Utxo.Inspection.Fee
import Utxo.ScriptClass.Basic
import Utxo.Transaction.Encoding

/-!
# Reports on transactions

A report tells what every script of a transaction is for. A message in an output may carry another
transaction, with a report of its own.
-/

namespace Utxo

inductive InspectionError where
  | transaction (error : TransactionError)
  | envelope (error : EnvelopeError)
  | payload (error : PayloadError)
  deriving DecidableEq, Repr

namespace InspectionError

def message : InspectionError → String
  | transaction error => "transaction: " ++ error.message
  | envelope error => "envelope: " ++ error.message
  | payload error => "payload: " ++ error.message

/-- Whether there were no levels left to go deeper. -/
def isDepthLimit : InspectionError → Bool
  | payload (.tooDeep _) | envelope (.payload (.tooDeep _)) => true
  | _ => false

end InspectionError

/-- What a message carries. `ρ` is the report on a transaction. -/
inductive Embedded (ρ : Type) where
  | transaction (report : ρ)
  | actionScript (class? : Option ScriptClass) (content? : Option Content)

/-- What is known of a locking script. What was found before a failure stays. -/
structure LockingFindings (ρ : Type) where
  class? : Option ScriptClass := none
  content? : Option Content := none
  embedded? : Option (Embedded ρ) := none
  failure? : Option InspectionError := none

structure InputReport where
  index : Nat
  range : ByteRange
  raw : Bytes
  class? : Option ScriptClass

structure OutputReport (ρ : Type) where
  index : Nat
  satoshis : UInt64
  range : ByteRange
  raw : Bytes
  findings : LockingFindings ρ

structure TransactionReport where
  id : TransactionId
  size : Nat
  transaction : Transaction
  inputs : List InputReport
  outputs : List (OutputReport TransactionReport)

namespace TransactionReport

def actions (r : TransactionReport) : List Content := r.outputs.filterMap (·.findings.content?)

def fee (r : TransactionReport) (spent : List (Option TransactionOutput)) : FeeSummary :=
  r.transaction.fee spent

end TransactionReport

end Utxo
