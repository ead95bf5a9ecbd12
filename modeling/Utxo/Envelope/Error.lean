import Utxo.Envelope.Header
import Utxo.Payload.Error
import Utxo.Text.Hex

/-! # Errors about envelopes -/

namespace Utxo

inductive EnvelopeError where
  | missing (part : String)
  /-- A count is no number, or more or less than there can be. -/
  | badCount (part : String) (operand : Bytes)
  | header (error : HeaderError)
  | payload (error : PayloadError)
  deriving DecidableEq, Repr

def EnvelopeError.message : EnvelopeError → String
  | missing part => "envelope missing " ++ part
  | badCount part operand => s!"invalid {part}: {Hex.encode operand}"
  | header error => "envelope header: " ++ error.message
  | payload error => "payload: " ++ error.message

end Utxo
