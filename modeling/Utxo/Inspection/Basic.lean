import Utxo.Inspection.Config
import Utxo.Inspection.Report

/-!
# Inspecting transactions

Only bytes that are no transaction make an inspection fail. What fails in an output is part of the
report on that output.
-/

namespace Utxo

structure Inspector where
  context : PayloadContext
  encoder : AddressEncoder := Address.encode .mainnet

/-- Inspects a transaction that stands in a payload. -/
abbrev TransactionInspector := Bytes → Except InspectionError TransactionReport

namespace Inspector

def ofConfig (schemas : SchemaSet) (config : InspectionConfig) : Inspector where
  context := { schemas, limit := config.maxDepth }
  encoder := Address.encode config.network

/-- The same inspector with fewer levels left. -/
def atLevel (i : Inspector) (levels : Nat) : Inspector :=
  { i with context := { i.context with levels } }

/-! ## Locking scripts -/

def content? (i : Inspector) : Option ScriptClass → Except EnvelopeError (Option Content)
  | some (.envelope e) => e.content? i.context
  | _ => .ok none

/-- Follows what a message carries, with `inner` for a transaction. A script is one level deeper,
too. -/
def resolveBy (i : Inspector) (inner : TransactionInspector) (content : Content) :
    Except InspectionError (Option (Embedded TransactionReport)) :=
  match content.message? with
  | none => .ok none
  | some message =>
    match message.transaction?, message.actionScript? with
    | some raw, _ => do return some (.transaction (← inner raw))
    | none, some raw => do
      let context ← i.context.nested.mapError .payload
      let class? ← ((Script.decode raw).lockingClass? i.encoder).mapError .envelope
      let content? ← ({ i with context }.content? class?).mapError .envelope
      return some (.actionScript class? content?)
    | none, none => .ok none

def examine (i : Inspector) (inner : TransactionInspector) (s : Script) :
    LockingFindings TransactionReport :=
  match s.lockingClass? i.encoder with
  | .error e => { failure? := some (.envelope e) }
  | .ok class? =>
    match i.content? class? with
    | .error e => { class?, failure? := some (.envelope e) }
    | .ok none => { class? }
    | .ok (some content) =>
      match i.resolveBy inner content with
      | .error e => { class?, content? := some content, failure? := some e }
      | .ok embedded? => { class?, content? := some content, embedded? }

/-! ## Transactions -/

def rawPart (raw : Bytes) (range : ByteRange) : Bytes := (range.slice? raw).getD []

/-- A transaction is named by the bytes it was read from, in whatever forms they hold its counts. -/
def sourceId (raw : Bytes) (tx : Transaction) : TransactionId :=
  match tx.range.slice? raw with
  | some source => .ofEncoded source
  | none => tx.id

def inputReport (i : Inspector) (raw : Bytes) (input : TransactionInput) (index : Nat) :
    InputReport where
  index
  range := input.range
  raw := rawPart raw input.range
  class? := input.unlocking.unlockingClass? i.encoder

def outputReport (i : Inspector) (inner : TransactionInspector) (raw : Bytes)
    (output : TransactionOutput) (index : Nat) : OutputReport TransactionReport where
  index
  satoshis := output.satoshis
  range := output.range
  raw := rawPart raw output.range
  findings := i.examine inner output.locking

def inspectBy (i : Inspector) (inner : TransactionInspector) : TransactionInspector := fun raw => do
  let tx ← (Transaction.decode raw).mapError .transaction
  return {
    id := sourceId raw tx
    size := tx.range.length
    transaction := tx
    inputs := tx.inputs.zipIdx.map fun (input, index) => i.inputReport raw input index
    outputs := tx.outputs.zipIdx.map fun (output, index) => i.outputReport inner raw output index }

/-- Inspects a transaction one level deeper, where so many levels are left to go down. -/
def below (i : Inspector) : (levels : Nat) → TransactionInspector
  | 0 => fun _ => .error (.payload (.tooDeep i.context.limit))
  | levels + 1 => (i.atLevel levels).inspectBy (i.below levels)

def inspect (i : Inspector) (raw : Bytes) : Except InspectionError TransactionReport :=
  i.inspectBy (i.below i.context.levels) raw

def inspectHex (i : Inspector) (digits : String) : Except InspectionError TransactionReport := do
  i.inspect (← (Hex.decode digits).mapError fun fault => .transaction (.hex fault))

/-- Inspects every one of the transactions, whatever comes of the others. -/
def inspectAll (i : Inspector) (raws : List Bytes) :
    List (Except InspectionError TransactionReport) := raws.map i.inspect

/-- Follows what a message carries. -/
def resolve (i : Inspector) (content : Content) :
    Except InspectionError (Option (Embedded TransactionReport)) :=
  i.resolveBy (i.below i.context.levels) content

end Inspector

end Utxo
