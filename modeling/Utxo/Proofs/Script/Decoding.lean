import Utxo.Script.Basic

/-! # Decoding loses nothing -/

namespace Utxo.Script

theorem encode_decodeFrom (seen : List Operation) (c : Cursor) :
    (decodeFrom seen c).encode = seen.reverse.flatMap Operation.encode ++ c.rest := by
  induction seen, c using decodeFrom.induct with
  | case1 seen c hend =>
    rw [decodeFrom, if_pos hend, encode, List.isEmpty_iff.mp hend]
    rfl
  | case2 seen c hend op next hread ih =>
    rw [decodeFrom, if_neg hend]
    split
    · rename_i op' next' hread'
      obtain ⟨rfl, rfl⟩ : op' = op ∧ next' = next := by simpa [hread] using hread'.symm
      rw [ih, List.reverse_cons, List.flatMap_append, List.flatMap_singleton, List.append_assoc,
        (Operation.read_ok hread).1]
    · rename_i hread'
      simp [hread] at hread'
  | case3 seen c hend reason next hread =>
    rw [decodeFrom, if_neg hend]
    split
    · rename_i hread'
      simp [hread] at hread'
    · rfl

/-- A decoded script is written as the bytes it was decoded from, with or without a fault. -/
@[simp] theorem encode_decode (b : Bytes) : (decode b).encode = b := by
  rw [decode, encode_decodeFrom]
  rfl

end Utxo.Script
