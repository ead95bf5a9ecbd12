import Utxo.Interpreter.Thread
import Utxo.Secp256k1.Signature
import Utxo.Transaction.Preimage

/-! # Spending an output -/

namespace Utxo

/-- A transaction and an output that one of its inputs spends. -/
structure Spend where
  tx : Transaction
  spent : TransactionOutput

namespace Spend

/-- The digest that a signature for input `index` has to cover. -/
def signatureHash (s : Spend) (index : Nat) (flags : SigHashFlags) :
    Except TransactionError (FixedBytes 32) :=
  s.tx.signatureHash index s.spent.locking.encode flags s.spent.satoshis

/-- A signature or key that cannot be read is not good. -/
def check (s : Spend) : SignatureCheck := fun signature flags key input =>
  match s.signatureHash input flags with
  | .error _ => .error (.noInput input s.tx.inputs.length)
  | .ok digest =>
    match Secp256k1.Signature.ofDer signature, Secp256k1.PublicKey.ofBytes key with
    | .ok signature, .ok key => .ok (signature.verify digest.val key)
    | _, _ => .ok false

end Spend

/-- Whether input `index` may spend an output: its script and then that of the output leave one
true item. -/
def Transaction.verifyInput (tx : Transaction) (index : Nat) (spent : TransactionOutput) :
    Except TransactionError Unit :=
  match tx.inputs[index]? with
  | none => .error (.noInput index tx.inputs.length)
  | some input =>
    let setting : Setting := { check? := some (Spend.check ⟨tx, spent⟩), input := index }
    match verifySpend setting input.unlocking spent.locking with
    | .ok () => .ok ()
    | .error failure => .error (.script failure)

end Utxo
