import Utxo.Envelope.Pushes
import Utxo.Payload.Context

/-!
# Envelopes

An envelope is data in an output that cannot be spent. The newer form lists protocols and items of
data; the older one has one protocol, a header and a payload.
-/

namespace Utxo

structure EnvelopeV0 where
  protocol : String
  header : EnvelopeHeader
  data : Bytes
  deriving DecidableEq, Repr

structure EnvelopeV1 where
  protocols : List String
  data : List Bytes
  deriving DecidableEq, Repr

inductive Envelope where
  | v0 (envelope : EnvelopeV0)
  | v1 (envelope : EnvelopeV1)
  deriving DecidableEq, Repr

/-! ## Reading -/

def EnvelopeV0.read : PushReader EnvelopeV0 := do
  let protocol ← PushReader.next "protocol tag"
  let header ← PushReader.next "envelope header"
  let header ← (Stateful.done (EnvelopeHeader.decode header)).blame .header
  let data ← PushReader.next "payload"
  return { protocol := Utf8.decode protocol, header, data }

def EnvelopeV1.read : PushReader EnvelopeV1 := do
  let protocols ← PushReader.counted "protocol count" "protocol"
  let data ← PushReader.counted "data count" "data item"
  return { protocols := protocols.map Utf8.decode, data }

namespace Envelope

/-- What announces an envelope of the older form. -/
def markerV0 : Bytes := [0xbd, 0x00]

/-- What announces an envelope of the newer form. -/
def markerV1 : Bytes := [0xbd, 0x01]

/-- The envelope that a marker announces, if it is a marker. -/
def read? (marker : Bytes) : PushReader (Option Envelope) :=
  if marker = markerV1 then do return some (.v1 (← EnvelopeV1.read))
  else if marker = markerV0 then do return some (.v0 (← EnvelopeV0.read))
  else return none

def protocols : Envelope → List String
  | v0 e => [e.protocol]
  | v1 e => e.protocols

/-! ## What is inside -/

/-- The protocols whose payloads are actions. -/
def actionProtocols : List String := ["TKN", "test.TKN"]

/-- The code of the action inside and its bytes, if the envelope's protocol has actions. In the
newer form an item in front of them is the version of the payload, which has to be zero. -/
def action? : Envelope → Option (PayloadCode × Bytes)
  | v0 e => if e.protocol ∈ actionProtocols then some (⟨Utf8.decode e.header.identifier⟩, e.data)
    else none
  | v1 e =>
    match e.protocols, e.data with
    | protocol :: _, version :: code :: data :: _ =>
      if protocol ∈ actionProtocols ∧ ScriptNumber.decode? ScriptNumber.maxWidth version = some 0
      then some (⟨Utf8.decode code⟩, data)
      else none
    | _, _ => none

/-- Decodes the action inside. -/
def content? (context : PayloadContext) (e : Envelope) : Except EnvelopeError (Option Content) :=
  match e.action? with
  | none => .ok none
  | some (code, data) => (some <$> context.decodeAction code data).mapError .payload

end Envelope

end Utxo
