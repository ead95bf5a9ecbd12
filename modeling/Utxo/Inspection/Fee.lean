import Utxo.Binary64
import Utxo.Json
import Utxo.Transaction.Encoding

/-! # What a transaction pays -/

namespace Utxo

/-- The value that goes through a transaction. A total is absent if a part of it is unknown or if it
is no number of 64 bits; the fee is absent without both totals, or if less goes in than comes
out. -/
structure FeeSummary where
  inputTotal? : Option UInt64
  outputTotal? : Option UInt64
  fee? : Option UInt64
  size : Nat
  satoshisPerByte? : Option Binary64
  deriving DecidableEq, Repr

/-- The difference, unless it is negative. -/
def checkedSub (a b : UInt64) : Option UInt64 := if b ≤ a then some (a - b) else none

namespace Transaction

/-- The value of the outputs that the inputs spend. -/
def inputTotal? (tx : Transaction) (spent : List (Option TransactionOutput)) : Option UInt64 :=
  (List.range tx.inputs.length).foldlM
    (fun sum i => do checkedAdd sum (← (← spent[i]?)).satoshis) 0

/-- The fee, given the output that each input spends, as far as they are known. -/
def fee (tx : Transaction) (spent : List (Option TransactionOutput)) : FeeSummary :=
  let inputTotal? := tx.inputTotal? spent
  let outputTotal? := tx.outputTotal?
  let fee? := do checkedSub (← inputTotal?) (← outputTotal?)
  let size := tx.size
  let satoshisPerByte? :=
    if size = 0 then none else fee?.map fun fee => .quotient fee.toNat size
  { inputTotal?, outputTotal?, fee?, size, satoshisPerByte? }

end Transaction

def FeeSummary.toJson (f : FeeSummary) : Json :=
  let number (v : UInt64) : Json := .nat v.toNat
  .record [
    ("input_total", .optional number f.inputTotal?),
    ("output_total", .optional number f.outputTotal?),
    ("fee", .optional number f.fee?),
    ("size", .nat f.size),
    ("sat_per_byte", .optional .float f.satoshisPerByte?)]

end Utxo
