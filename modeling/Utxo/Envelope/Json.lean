import Utxo.Envelope.Basic
import Utxo.Json

/-! # Envelopes as JSON -/

namespace Utxo

def EnvelopeHeader.toJson (h : EnvelopeHeader) : Json := .record ([
  ("version", .nat h.version.toNat),
  ("type", .text (Utf8.decode h.type)),
  ("identifier", .text (Utf8.decode h.identifier)),
  ("meta_net", .hex h.metaNet)] ++
  if h.encryptedPayloads = [] then []
  else [("encrypted_payloads", .list .hex h.encryptedPayloads)])

def EnvelopeV0.toJson (e : EnvelopeV0) : Json := .record [
  ("protocol_tag", .text e.protocol), ("header", e.header.toJson), ("data", .hex e.data)]

def EnvelopeV1.toJson (e : EnvelopeV1) : Json := .record [
  ("protocols", .list .text e.protocols), ("data", .list .hex e.data)]

def Envelope.toJson : Envelope → Json
  | v0 e => .record [("v0", e.toJson)]
  | v1 e => .record [("v1", e.toJson)]

end Utxo
