import Utxo.Proofs.Bytes.Forms
import Utxo.Transaction.Encoding

/-! # The size of an encoding is its length -/

namespace Utxo

theorem CompactSize.length_frame (b : Bytes) :
    (frame b).length = Transaction.framedLength b.length := by
  simp [frame, Transaction.framedLength, length_encode, ofLength]

/-- The lengths of the pieces add up in the order in which a size is computed. -/
theorem length_flatMap_eq_foldr {α : Type} {encode : α → Bytes} {size : α → Nat} {items : List α}
    (h : ∀ item, (encode item).length = size item) :
    (items.flatMap encode).length = items.foldr (fun item n => size item + n) 0 := by
  induction items with
  | nil => rfl
  | cons item items ih => simp [h, ih]

theorem Script.length_encode (s : Script) : s.encode.length = s.length := by
  unfold encode length
  rw [List.length_append, length_flatMap_eq_foldr fun _ => rfl]
  cases s.fault? <;> rfl

theorem TransactionInput.length_encode (input : TransactionInput) :
    input.encode.length = 36 + Transaction.framedLength input.unlocking.length + 4 := by
  simp [encode, encodeWith, CompactSize.length_frame, Script.length_encode]
  omega

theorem TransactionOutput.length_encode (output : TransactionOutput) :
    output.encode.length = 8 + Transaction.framedLength output.locking.length := by
  simp [encode, Script.frame, CompactSize.length_frame, Script.length_encode]

namespace Transaction

theorem length_encode (tx : Transaction) : tx.encode.length = tx.size := by
  unfold encode size
  simp only [List.length_append, Bytes.length_ofUInt32, CompactSize.length_encode,
    length_flatMap_eq_foldr TransactionInput.length_encode,
    length_flatMap_eq_foldr TransactionOutput.length_encode]

/-- Sizes are told without encoding anything, and still they are the lengths of what is written,
whether scripts were read, whole or broken, or put together from any operations. -/
theorem size_eq_length_encode (tx : Transaction) :
    tx.size = tx.encode.length ∧ ∀ s : Script, s.length = s.encode.length :=
  ⟨tx.length_encode.symm, fun s => s.length_encode.symm⟩

end Transaction

end Utxo
