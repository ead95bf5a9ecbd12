import Utxo.Bytes.Cursor
import Utxo.Wire.Basic

/-! # Errors about payloads -/

namespace Utxo

inductive PayloadError where
  | wire (fault : WireFault)
  /-- A declared field is the key of a group. -/
  | group (field : String) (wireType : WireType)
  | overrun (field : String) (cause : Truncated)
  | tooDeep (limit : Nat)
  deriving DecidableEq, Repr

def PayloadError.message : PayloadError → String
  | wire fault => "payload wire format: " ++ fault.message
  | group field t =>
    s!"field {field}: expected scalar or length-delimited, found wire type {t.code}"
  | overrun field cause =>
    s!"field {field}: length {cause.needed} exceeds remaining {cause.remaining} bytes"
  | tooDeep limit => s!"nested decode exceeded depth limit of {limit}"

end Utxo
