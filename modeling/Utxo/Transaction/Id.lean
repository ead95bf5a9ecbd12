import Utxo.Digest
import Utxo.Json

/-! # Names of transactions -/

namespace Utxo

inductive TransactionIdError where
  | hex (fault : Hex.Fault)
  | badLength (length : Nat)
  deriving DecidableEq, Repr

def TransactionIdError.message : TransactionIdError → String
  | .hex fault => "invalid hex: " ++ fault.message
  | .badLength n => s!"invalid hash: invalid hash length of {n}, want 32"

/-- The double digest of an encoded transaction, as it stands in outpoints. People see it with the
bytes in reverse. -/
structure TransactionId where
  wire : FixedBytes 32
  deriving DecidableEq

namespace TransactionId

/-- The id that no transaction has: zeros. -/
def null : TransactionId := ⟨FixedBytes.zero 32⟩

def ofEncoded (b : Bytes) : TransactionId := ⟨Digest.sha256d b⟩

def shownBytes (id : TransactionId) : Bytes := id.wire.val.reverse

def shown (id : TransactionId) : String := Hex.encode id.shownBytes

def ofShown (text : String) : Except TransactionIdError TransactionId :=
  match Hex.decode text with
  | .error fault => .error (.hex fault)
  | .ok b =>
    if h : b.length = 32 then .ok ⟨⟨b.reverse, by simp [h]⟩⟩ else .error (.badLength b.length)

def toJson (id : TransactionId) : Json := .text id.shown

def ofJson? (j : Json) : Option TransactionId := do (ofShown (← j.text?)).toOption

end TransactionId

end Utxo
