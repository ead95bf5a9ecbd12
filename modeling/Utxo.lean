import Utxo.Address
import Utxo.Inspection.Basic
import Utxo.Inspection.Fee
import Utxo.Inspection.Json
import Utxo.Json.Document
import Utxo.Payload.Tagged
import Utxo.Script.Description
import Utxo.Secp256k1.Description
import Utxo.Transaction.Description
import Utxo.Transaction.Spend
import Utxo.Proofs.Interpreter.Blocks
import Utxo.Proofs.Interpreter.Conditionals
import Utxo.Proofs.Interpreter.Refinement
import Utxo.Proofs.Interpreter.Commands
import Utxo.Proofs.Interpreter.KeyHash
import Utxo.Proofs.Script.Decoding
import Utxo.Proofs.Script.Lossless
import Utxo.Proofs.Transaction.LegacyPreimage
import Utxo.Proofs.Transaction.RoundTrip
import Utxo.Proofs.Transaction.NormalForm
import Utxo.Proofs.Transaction.Ranges
import Utxo.Proofs.Transaction.Size
import Utxo.Proofs.Transaction.ForkPreimage
import Utxo.Proofs.Inspection.Source
import Utxo.Proofs.Transaction.LegacyCommitment
import Utxo.Proofs.Inspection.Depth
import Utxo.Proofs.Payload.Encoding
import Utxo.Proofs.Text.Utf8
import Utxo.Proofs.Wire.Reading
import Utxo.Proofs.Wire.Local
import Utxo.Proofs.Payload.RoundTrip
import Utxo.Proofs.Script.Pushes
import Utxo.Proofs.Transaction.Cut
import Utxo.Proofs.Envelope.Reading
import Utxo.Proofs.ScriptClass.Locking
import Utxo.Proofs.ScriptClass.Spender
import Utxo.Proofs.Script.Building
import Utxo.Proofs.Wire.Fields
import Utxo.Proofs.Payload.Merging
import Utxo.Proofs.Payload.Concatenation
import Utxo.Proofs.Inspection.Findings
import Utxo.Proofs.Inspection.Revealing
import Utxo.Proofs.Interpreter.Frame
import Utxo.Proofs.Interpreter.Joining
import Utxo.Proofs.Interpreter.Nesting
import Utxo.Proofs.Script.Numbers
import Utxo.Proofs.Envelope.Content
import Utxo.Proofs.Payload.Conformance
import Utxo.Proofs.Payload.Packing
import Utxo.Proofs.Script.Words
import Utxo.Proofs.Interpreter.Truth
import Utxo.Proofs.Interpreter.Questions
import Utxo.Proofs.Transaction.Spending
import Utxo.Proofs.Secp256k1.Der
import Utxo.Proofs.Secp256k1.Lenient
import Utxo.Proofs.Secp256k1.Keys
import Utxo.Proofs.Text.Base58
import Utxo.Proofs.Transaction.Json
import Utxo.Proofs.Inspection.Fee
import Utxo.Proofs.Payload.Budget
import Utxo.Proofs.Payload.Codes
import Utxo.Proofs.Session.Writing
