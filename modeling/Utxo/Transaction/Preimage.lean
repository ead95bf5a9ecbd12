import Utxo.SigHash
import Utxo.Transaction.Encoding

/-!
# What a signature signs

Two ways to write down what a signature covers, and a bit of the flags to choose between them. The
newer one commits to the value that is spent and to digests of lists; the older one is the
transaction itself with some of its parts blanked.
-/

namespace Utxo.Transaction

/-! ## With a fork id -/

def outpointsDigest (tx : Transaction) : Bytes :=
  (Digest.sha256d (tx.inputs.flatMap (·.outpoint.encode))).val

def sequencesDigest (tx : Transaction) : Bytes :=
  (Digest.sha256d (tx.inputs.flatMap fun i => Bytes.ofUInt32 i.sequence)).val

def outputsDigest (outputs : List TransactionOutput) : Bytes :=
  (Digest.sha256d (outputs.flatMap TransactionOutput.encode)).val

def zeroDigest : Bytes := List.replicate 32 0

def forkPreimage (tx : Transaction) (index : Nat) (script : Bytes) (flags : SigHashFlags)
    (satoshis : UInt64) : Except TransactionError Bytes :=
  match tx.inputs[index]? with
  | none => .error (.noInput index tx.inputs.length)
  | some input =>
    let outpoints := if flags.anyoneCanPay then zeroDigest else tx.outpointsDigest
    let sequences :=
      if !flags.anyoneCanPay && flags.base == .all then tx.sequencesDigest else zeroDigest
    let outputs :=
      match flags.base with
      | .all => outputsDigest tx.outputs
      | .none => zeroDigest
      | .single =>
        match tx.outputs[index]? with
        | some output => outputsDigest [output]
        | none => zeroDigest
    .ok (Bytes.ofUInt32 tx.version ++ outpoints ++ sequences ++ input.outpoint.encode ++
      CompactSize.frame script ++ Bytes.ofUInt64 satoshis ++ Bytes.ofUInt32 input.sequence ++
      outputs ++ Bytes.ofUInt32 tx.lockTime ++ Bytes.ofUInt32 flags.byte.toUInt32)

/-! ## Without one -/

/-- What an output is written as that a signature over a single output passes over. -/
def blankOutput : Bytes := Bytes.ofUInt64 0xffffffffffffffff ++ CompactSize.frame []

/-- How input `i` is written when input `signed` is the one that is signed. -/
def legacyInput (signed : Nat) (script : Bytes) (flags : SigHashFlags)
    (input : TransactionInput) (i : Nat) : Bytes :=
  if i = signed then input.encodeWith script input.sequence
  else if flags.anyoneCanPay then []
  else input.encodeWith [] (if flags.base = .all then input.sequence else 0)

/-- `none` if a single output is to be signed and the input has none: then a fixed digest is
signed instead. -/
def legacyPreimage? (tx : Transaction) (index : Nat) (script : Bytes) (flags : SigHashFlags) :
    Except TransactionError (Option Bytes) :=
  if tx.inputs.length ≤ index then .error (.noInput index tx.inputs.length)
  else
    let inputCount := if flags.anyoneCanPay then 1 else CompactSize.ofLength tx.inputs
    let inputs := tx.inputs.zipIdx.flatMap fun (input, i) =>
      legacyInput index script flags input i
    let outputs? :=
      match flags.base with
      | .all => some (CompactSize.encode (CompactSize.ofLength tx.outputs) ++
          tx.outputs.flatMap TransactionOutput.encode)
      | .none => some (CompactSize.encode 0)
      | .single => tx.outputs[index]?.map fun (output : TransactionOutput) =>
          CompactSize.encode (UInt64.ofNat (index + 1)) ++
            (List.replicate index blankOutput).flatten ++ output.encode
    .ok (outputs?.map fun outputs =>
      Bytes.ofUInt32 tx.version ++ CompactSize.encode inputCount ++ inputs ++ outputs ++
        Bytes.ofUInt32 tx.lockTime ++ Bytes.ofUInt32 flags.byte.toUInt32)

/-! ## Digests -/

/-- The number one, little-endian: what is signed for want of an output. -/
def noOutputDigest : FixedBytes 32 := ⟨1 :: List.replicate 31 0, by simp⟩

/-- The digest that a signature for input `index` is about. -/
def signatureHash (tx : Transaction) (index : Nat) (script : Bytes) (flags : SigHashFlags)
    (satoshis : UInt64) : Except TransactionError (FixedBytes 32) :=
  if flags.forkId then Digest.sha256d <$> tx.forkPreimage index script flags satoshis
  else do
    match ← tx.legacyPreimage? index script flags with
    | some preimage => return Digest.sha256d preimage
    | none => return noOutputDigest

end Utxo.Transaction
