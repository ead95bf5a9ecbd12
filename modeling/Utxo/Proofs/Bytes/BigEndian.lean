import Utxo.Proofs.Script.Numbers

/-!
# Numbers with the most significant byte first

Zeros in front of a number do not count, and without them a number has no more bytes than it needs.
-/

namespace Utxo.Bytes

variable {a b : Bytes} {x : UInt8} {width : Nat}

theorem toNatBE_cons (x : UInt8) (rest : Bytes) :
    toNatBE (x :: rest) = toNatBE rest + capacity rest.length * x.toNat := by
  rw [toNatBE, List.reverse_cons, toNatLE_append, List.length_reverse]
  rfl

theorem toNatBE_zero_cons (rest : Bytes) : toNatBE (0 :: rest) = toNatBE rest := by
  rw [toNatBE_cons]
  rfl

theorem toNatBE_inj (hlength : a.length = b.length) (h : toNatBE a = toNatBE b) : a = b := by
  rw [← ofNatBE_toNatBE a, ← ofNatBE_toNatBE b, hlength, h]

theorem capacity_le_capacity {width' : Nat} (h : width ≤ width') :
    capacity width ≤ capacity width' := by
  rw [capacity_eq, capacity_eq]
  exact Nat.pow_le_pow_right (by decide) (by omega)

/-- The first byte says how large the number is. -/
theorem toNatBE_cons_bounds (x : UInt8) (rest : Bytes) :
    capacity rest.length * x.toNat ≤ toNatBE (x :: rest) ∧
      toNatBE (x :: rest) < capacity rest.length * (x.toNat + 1) := by
  have hlt := toNatBE_lt rest
  rw [toNatBE_cons, Nat.mul_succ]
  omega

theorem toNatBE_dropWhile_zero (b : Bytes) : toNatBE (b.dropWhile (· == 0)) = toNatBE b := by
  induction b with
  | nil => rfl
  | cons x rest ih =>
    by_cases hx : x = 0
    · subst hx
      rw [List.dropWhile_cons_of_pos rfl, ih, toNatBE_zero_cons]
    · rw [List.dropWhile_cons_of_neg (by simpa using hx)]

/-- What is left without the zeros in front is nothing, or starts with another byte. -/
theorem dropWhile_zero_cases (b : Bytes) :
    b.dropWhile (· == 0) = [] ∨ ∃ x rest, b.dropWhile (· == 0) = x :: rest ∧ x ≠ 0 := by
  induction b with
  | nil => exact .inl rfl
  | cons x rest ih =>
    by_cases hx : x = 0
    · subst hx
      rwa [List.dropWhile_cons_of_pos rfl]
    · exact .inr ⟨x, rest, List.dropWhile_cons_of_neg (by simpa using hx), hx⟩

theorem length_dropWhile_zero_le (h : toNatBE b < capacity width) :
    (b.dropWhile (· == 0)).length ≤ width := by
  rw [← toNatBE_dropWhile_zero] at h
  obtain hnil | ⟨x, rest, hcons, hx⟩ := dropWhile_zero_cases b
  · rw [hnil]
    exact Nat.zero_le _
  · rw [hcons] at h ⊢
    have hpos : 0 < x.toNat := Nat.pos_of_ne_zero fun hzero => hx (UInt8.toNat_inj.mp hzero)
    have hlower := (toNatBE_cons_bounds x rest).1
    have hscale := Nat.le_mul_of_pos_right (capacity rest.length) hpos
    by_contra hlong
    have hmono : capacity width ≤ capacity rest.length :=
      capacity_le_capacity (by rw [List.length_cons] at hlong; omega)
    omega

end Utxo.Bytes
