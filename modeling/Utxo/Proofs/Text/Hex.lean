import Utxo.Proofs.Text.Utf8
import Utxo.Text.Hex

/-! # Bytes survive being written as digits -/

namespace Utxo.Hex

/-- The byte that a digit is written as. -/
def digitByte (n : Nat) : UInt8 := UInt8.ofNat (digit n).toNat

theorem digit_spec {n : Nat} (h : n < 16) :
    (digit n).toNat < 0x80 ∧ value? (digitByte n) = some n := by
  have hall : ∀ n < 16, (digit n).toNat < 0x80 ∧ value? (digitByte n) = some n := by decide
  exact hall n h

/-- The two digits of each byte. -/
def digitBytes (b : Bytes) : Bytes :=
  b.flatMap fun x => [digitByte (x.toNat / 16), digitByte (x.toNat % 16)]

theorem digitBytes_cons (x : UInt8) (rest : Bytes) : digitBytes (x :: rest) =
    digitByte (x.toNat / 16) :: digitByte (x.toNat % 16) :: digitBytes rest := rfl

theorem length_digitBytes (b : Bytes) : (digitBytes b).length = 2 * b.length := by
  induction b with
  | nil => rfl
  | cons x rest ih =>
    rw [digitBytes_cons, List.length_cons, List.length_cons, ih, List.length_cons]
    omega

theorem encode_utf8 (b : Bytes) : Utf8.encode (encode b) = digitBytes b := by
  have hascii : ∀ c ∈ b.flatMap fun x => [digit (x.toNat / 16), digit (x.toNat % 16)],
      c.toNat < 0x80 := by
    intro c hc
    obtain ⟨x, -, hx⟩ := List.mem_flatMap.mp hc
    have hlt := x.toNat_lt
    rw [List.mem_cons, List.mem_singleton] at hx
    rcases hx with rfl | rfl
    · exact (digit_spec (by omega)).1
    · exact (digit_spec (by omega)).1
  rw [encode, Utf8.encode_ofList_ascii hascii, List.map_flatMap]
  rfl

theorem decodePairs_digitBytes (index : Nat) (b : Bytes) :
    decodePairs index (digitBytes b) = .ok b := by
  induction b generalizing index with
  | nil => rfl
  | cons x rest ih =>
    have hlt := x.toNat_lt
    have hhigh := (digit_spec (n := x.toNat / 16) (by omega)).2
    have hlow := (digit_spec (n := x.toNat % 16) (by omega)).2
    have hx : UInt8.ofNat (16 * (x.toNat / 16) + x.toNat % 16) = x := by
      rw [Nat.div_add_mod, UInt8.ofNat_toNat]
    rw [digitBytes_cons, decodePairs, hhigh, hlow]
    simp only [ih, hx]
    rfl

/-- Bytes are read back from the digits that they are written in. -/
@[simp] theorem decode_encode (b : Bytes) : decode (encode b) = .ok b := by
  rw [decode, encode_utf8, length_digitBytes, if_neg (by omega), decodePairs_digitBytes]

end Utxo.Hex
