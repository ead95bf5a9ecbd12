import Utxo.Transaction.Basic

/-! # Transactions as JSON -/

namespace Utxo

namespace ByteRange

def toJson (r : ByteRange) : Json := .record [("start", .nat r.start), ("end", .nat r.stop)]

def ofJson? (j : Json) : Option ByteRange := do
  let fields ← j.fields? ["start", "end"]
  let start ← Json.required fields "start" (Json.natBelow? UInt64.size)
  let stop ← Json.required fields "end" (Json.natBelow? UInt64.size)
  return ⟨start, stop⟩

end ByteRange

namespace TransactionInput

def toJson (input : TransactionInput) : Json := .record [
  ("source_txid", input.outpoint.source.toJson),
  ("source_tx_out_index", .nat input.outpoint.index.toNat),
  ("unlocking_script", input.unlocking.toJson),
  ("sequence_number", .nat input.sequence.toNat),
  ("byte_range", input.range.toJson)]

def ofJson? (j : Json) : Option TransactionInput := do
  let fields ← j.fields?
    ["source_txid", "source_tx_out_index", "unlocking_script", "sequence_number", "byte_range"]
  let source ← Json.required fields "source_txid" TransactionId.ofJson?
  let index ← Json.required fields "source_tx_out_index" Json.uint32?
  let unlocking ← Json.required fields "unlocking_script" Script.ofJson?
  let sequence ← Json.required fields "sequence_number" Json.uint32?
  let range ← Json.defaulted fields "byte_range" {} ByteRange.ofJson?
  return { outpoint := ⟨source, index⟩, unlocking, sequence, range }

end TransactionInput

namespace TransactionOutput

def toJson (output : TransactionOutput) : Json := .record [
  ("satoshis", .nat output.satoshis.toNat),
  ("locking_script", output.locking.toJson),
  ("byte_range", output.range.toJson)]

def ofJson? (j : Json) : Option TransactionOutput := do
  let fields ← j.fields? ["satoshis", "locking_script", "byte_range"]
  let satoshis ← Json.required fields "satoshis" Json.uint64?
  let locking ← Json.required fields "locking_script" Script.ofJson?
  let range ← Json.defaulted fields "byte_range" {} ByteRange.ofJson?
  return { satoshis, locking, range }

end TransactionOutput

namespace Transaction

def toJson (tx : Transaction) : Json := .record [
  ("version", .nat tx.version.toNat),
  ("inputs", .list TransactionInput.toJson tx.inputs),
  ("outputs", .list TransactionOutput.toJson tx.outputs),
  ("lock_time", .nat tx.lockTime.toNat),
  ("byte_range", tx.range.toJson)]

def ofJson? (j : Json) : Option Transaction := do
  let fields ← j.fields? ["version", "inputs", "outputs", "lock_time", "byte_range"]
  let version ← Json.required fields "version" Json.uint32?
  let inputs ← Json.required fields "inputs" (Json.list? TransactionInput.ofJson?)
  let outputs ← Json.required fields "outputs" (Json.list? TransactionOutput.ofJson?)
  let lockTime ← Json.required fields "lock_time" Json.uint32?
  let range ← Json.defaulted fields "byte_range" {} ByteRange.ofJson?
  return { version, inputs, outputs, lockTime, range }

end Transaction

end Utxo
