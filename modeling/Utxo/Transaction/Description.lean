import Utxo.Transaction.Encoding
import Utxo.Transaction.Json

/-! # Transactions described for readers -/

namespace Utxo.Transaction

def totals (tx : Transaction) : List (String × Json) := [
  ("txid", tx.id.toJson),
  ("size", .nat tx.size),
  ("total", .optional (fun v : UInt64 => .nat v.toNat) tx.outputTotal?),
  ("is_coinbase", .bool tx.isCoinbase),
  ("faults", .bool tx.hasScriptFault)]

def described (tx : Transaction) : List (String × Json) := tx.totals ++ [
  ("counts", .array [.nat tx.inputs.length, .nat tx.outputs.length]),
  ("byte_range", .array [.nat tx.range.start, .nat tx.range.stop]),
  ("display", .hex tx.encode),
  ("json", tx.toJson)]

end Utxo.Transaction
