import Utxo.Inspection.Report
import Utxo.Payload.Json
import Utxo.ScriptClass.Json
import Utxo.Transaction.Json

/-! # Reports as JSON -/

namespace Utxo

/-- A member that is left out if there is no value. -/
def Json.present {α : Type} (name : String) (write : α → Json) (value? : Option α) :
    List (String × Json) :=
  value?.toList.map fun value => (name, write value)

def InputReport.toJson (r : InputReport) : Json := .record [
  ("index", .nat r.index),
  ("byte_range", r.range.toJson),
  ("raw_hex", .hex r.raw),
  ("payload", .optional ScriptClass.toJson r.class?)]

mutual

def TransactionReport.toJson : TransactionReport → Json
  | ⟨id, size, transaction, inputs, outputs⟩ => .record [
    ("txid", id.toJson),
    ("size", .nat size),
    ("transaction", transaction.toJson),
    ("inputs", .list InputReport.toJson inputs),
    ("outputs", .array (TransactionReport.outputsToJson outputs))]

def TransactionReport.outputsToJson : List (OutputReport TransactionReport) → List Json
  | [] => []
  | ⟨index, satoshis, range, raw, ⟨class?, content?, embedded?, failure?⟩⟩ :: rest =>
    .record ([
      ("index", .nat index),
      ("satoshis", .nat satoshis.toNat),
      ("byte_range", range.toJson),
      ("raw_hex", .hex raw),
      ("payload", .optional ScriptClass.toJson class?)] ++
      Json.present "content" Content.toJson content? ++
      TransactionReport.embeddedToJson embedded? ++
      Json.present "error" (fun e => .text e.message) failure?) ::
    TransactionReport.outputsToJson rest

def TransactionReport.embeddedToJson :
    Option (Embedded TransactionReport) → List (String × Json)
  | none => []
  | some (.transaction report) => [("embedded", .record [("transaction", report.toJson)])]
  | some (.actionScript class? content?) => [("embedded", .record [("action_script", .record [
    ("payload", .optional ScriptClass.toJson class?),
    ("content", .optional Content.toJson content?)])])]

end

end Utxo
