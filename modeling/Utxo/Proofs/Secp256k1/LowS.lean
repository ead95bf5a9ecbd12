import Utxo.Secp256k1.Signature

/-!
# The two signs of S

With one sign or the other S is the same signature, and one of the two is low. What is written and
what is verified is that one.
-/

namespace Utxo.Secp256k1

theorem Scalar.val_neg {s : Scalar} (h : s ≠ 0) : (-s).val = groupOrder - s.val := by
  rw [Fin.val_neg, if_neg h]

/-- No scalar is its own negation, since the order is odd. -/
theorem groupOrder_odd : groupOrder = 2 * (groupOrder / 2) + 1 := by decide

namespace Signature

/-- The same signature with the other sign of S. -/
def negated (signature : Signature) : Signature where
  r := signature.r
  s := -signature.s
  r_ne_zero := signature.r_ne_zero
  s_ne_zero := by
    have hneg := Scalar.val_neg signature.s_ne_zero
    have hlt := signature.s.isLt
    rw [← Fin.val_ne_zero_iff, hneg]
    omega

variable (signature : Signature)

theorem val_negated : signature.negated.s.val = groupOrder - signature.s.val :=
  Scalar.val_neg signature.s_ne_zero

theorem isHighS_iff : signature.isHighS = true ↔ groupOrder / 2 < signature.s.val :=
  decide_eq_true_iff

theorem lowS_eq : signature.lowS = if signature.isHighS then signature.negated else signature := by
  have hflipped : ofScalars? signature.r (-signature.s) = some signature.negated := by
    have hneg : -signature.s ≠ 0 := signature.negated.s_ne_zero
    rw [ofScalars?, dif_pos signature.r_ne_zero, dif_pos hneg]
    rfl
  rw [lowS, hflipped]

theorem r_lowS : signature.lowS.r = signature.r := by
  rw [lowS_eq]
  split <;> rfl

theorem val_lowS :
    signature.lowS.s.val = min signature.s.val (groupOrder - signature.s.val) := by
  have hodd := groupOrder_odd
  have hlt := signature.s.isLt
  rw [lowS_eq]
  split
  · rename_i hhigh
    rw [isHighS_iff] at hhigh
    rw [val_negated]
    omega
  · rename_i hlow
    rw [isHighS_iff] at hlow
    omega

theorem ext_val {a b : Signature} (hr : a.r = b.r) (hs : a.s.val = b.s.val) : a = b := by
  rw [mk.injEq]
  exact ⟨hr, Fin.ext hs⟩

/-- Both signs have the same low form. -/
theorem lowS_negated : signature.negated.lowS = signature.lowS := by
  have hlt := signature.s.isLt
  refine ext_val ?_ ?_
  · rw [r_lowS, r_lowS]
    rfl
  · rw [val_lowS, val_lowS, val_negated]
    omega

theorem toDer_negated : signature.negated.toDer = signature.toDer := by
  rw [toDer, toDer, lowS_negated]

theorem verify_negated (digest : Bytes) (key : PublicKey) :
    signature.negated.verify digest key = signature.verify digest key := by
  rw [verify, verify, lowS_negated]

end Signature

end Utxo.Secp256k1
