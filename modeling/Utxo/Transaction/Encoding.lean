import Utxo.Transaction.Basic
import Utxo.Transaction.Error

/-! # Transactions as bytes -/

namespace Utxo

/-! ## Writing -/

def Outpoint.encode (o : Outpoint) : Bytes := o.source.wire.val ++ Bytes.ofUInt32 o.index

@[simp] theorem Outpoint.length_encode (o : Outpoint) : o.encode.length = 36 := by
  simp [encode, o.source.wire.property]

namespace TransactionInput

/-- The input with another script and another sequence number in place of its own. -/
def encodeWith (input : TransactionInput) (script : Bytes) (sequence : UInt32) : Bytes :=
  input.outpoint.encode ++ CompactSize.frame script ++ Bytes.ofUInt32 sequence

def encode (input : TransactionInput) : Bytes :=
  input.encodeWith input.unlocking.encode input.sequence

end TransactionInput

def TransactionOutput.encode (output : TransactionOutput) : Bytes :=
  Bytes.ofUInt64 output.satoshis ++ output.locking.frame

namespace Transaction

def encode (tx : Transaction) : Bytes :=
  Bytes.ofUInt32 tx.version ++
    CompactSize.encode (CompactSize.ofLength tx.inputs) ++
    tx.inputs.flatMap TransactionInput.encode ++
    CompactSize.encode (CompactSize.ofLength tx.outputs) ++
    tx.outputs.flatMap TransactionOutput.encode ++
    Bytes.ofUInt32 tx.lockTime

def id (tx : Transaction) : TransactionId := .ofEncoded tx.encode

/-! ## Size -/

/-- The size of a script behind its length. -/
def framedLength (n : Nat) : Nat := CompactSize.length (UInt64.ofNat n) + n

/-- The size of the encoding, without encoding anything. -/
def size (tx : Transaction) : Nat :=
  4 + CompactSize.length (CompactSize.ofLength tx.inputs) +
    tx.inputs.foldr (fun i n => 36 + framedLength i.unlocking.length + 4 + n) 0 +
    CompactSize.length (CompactSize.ofLength tx.outputs) +
    tx.outputs.foldr (fun o n => 8 + framedLength o.locking.length + n) 0 + 4

end Transaction

/-! ## Reading -/

/-- Reads one part; a failure names it. -/
def TransactionPart.reading {α : Type} (part : TransactionPart) (reader : Reader Truncated α) :
    Reader MissingPart α :=
  reader.blame (⟨part, ·⟩)

/-- The offset that reading has come to. -/
def Reader.position {ε : Type} : Reader ε Nat := return (← get).position

def TransactionInput.read : Reader MissingPart TransactionInput := do
  let start ← Reader.position
  let source ← TransactionPart.sourceId.reading (Reader.fixed 32)
  let index ← TransactionPart.outputIndex.reading Reader.u32LE
  let unlocking ← TransactionPart.unlockingScript.reading Script.read
  let sequence ← TransactionPart.sequenceNumber.reading Reader.u32LE
  let stop ← Reader.position
  return { outpoint := ⟨⟨source⟩, index⟩, unlocking, sequence, range := ⟨start, stop⟩ }

def TransactionOutput.read : Reader MissingPart TransactionOutput := do
  let start ← Reader.position
  let satoshis ← TransactionPart.satoshis.reading Reader.u64LE
  let locking ← TransactionPart.lockingScript.reading Script.read
  let stop ← Reader.position
  return { satoshis, locking, range := ⟨start, stop⟩ }

namespace Transaction

def read : Reader MissingPart Transaction := do
  let start ← Reader.position
  let version ← TransactionPart.version.reading Reader.u32LE
  let inputCount ← TransactionPart.inputCount.reading CompactSize.read
  let inputs ← Reader.times TransactionInput.read inputCount.toNat
  let outputCount ← TransactionPart.outputCount.reading CompactSize.read
  let outputs ← Reader.times TransactionOutput.read outputCount.toNat
  let lockTime ← TransactionPart.lockTime.reading Reader.u32LE
  let stop ← Reader.position
  return { version, inputs, outputs, lockTime, range := ⟨start, stop⟩ }

/-- The transaction that is all of `b`. -/
def decode (b : Bytes) : Except TransactionError Transaction :=
  match read.runFrom (.start b) with
  | (.error failure, _) => .error (.missing failure)
  | (.ok tx, c) => if c.atEnd then .ok tx else .error (.trailing c.remaining)

def ofHex (digits : String) : Except TransactionError Transaction :=
  match Hex.decode digits with
  | .error fault => .error (.hex fault)
  | .ok b => decode b

end Transaction

end Utxo
