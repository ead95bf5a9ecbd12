import Utxo.Envelope.Json
import Utxo.ScriptClass.Basic

/-! # Classes of scripts as JSON -/

namespace Utxo

def Party.toJson (p : Party) : Json := .record ([
  ("address", .text p.address),
  ("public_key_hash", .hex p.hash.val)] ++
  p.key?.toList.map fun key => ("public_key", .hex key))

def ScriptClass.toJson : ScriptClass → Json
  | party p => .record [("p2pkh", p.toJson)]
  | envelope e => .record [("envelope", e.toJson)]

end Utxo
