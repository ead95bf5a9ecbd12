import Mathlib.FieldTheory.Finite.Basic
import Mathlib.Tactic.NormNum.Prime
import Utxo.Secp256k1.Curve

/-!
# The field of the curve

The order of the field is a prime, which leaves three when divided by four. So every square has a
root that one power finds, and no point of the curve has zero for its second coordinate.
-/

namespace Utxo.Secp256k1

/-! ## Powers -/

section Powers

variable {m : Nat} {b acc : Fin m}

/-- One bit of the exponent more. -/
theorem val_square {n : Nat} (h : acc.val = b.val ^ (n / 2) % m) :
    (if n % 2 = 1 then acc * acc * b else acc * acc).val = b.val ^ n % m := by
  have hn : n = n / 2 + n / 2 + n % 2 := by omega
  split
  · rename_i hodd
    rw [Fin.val_mul, Fin.val_mul, h]
    conv_rhs => rw [hn, hodd, Nat.pow_succ, Nat.pow_add]
    simp [Nat.mul_mod]
  · rename_i heven
    rw [Fin.val_mul, h]
    conv_rhs => rw [hn, Nat.mod_two_ne_one.mp heven, Nat.add_zero, Nat.pow_add]
    simp [Nat.mul_mod]

/-- The bits of the exponent from `i` on, highest first. -/
theorem val_foldr_square {one : Fin m} (hone : one.val = 1 % m) {e : Nat} (k i : Nat)
    (h : e / 2 ^ i < 2 ^ k) :
    ((List.range' i k).foldr (fun i acc => if e.testBit i then acc * acc * b else acc * acc)
      one).val = b.val ^ (e / 2 ^ i) % m := by
  induction k generalizing i with
  | zero =>
    rw [Nat.lt_one_iff.mp h, Nat.pow_zero]
    exact hone
  | succ k ih =>
    have hhalf : e / 2 ^ (i + 1) = e / 2 ^ i / 2 := by rw [Nat.pow_succ, Nat.div_div_eq_div_mul]
    have hrest := ih (i + 1) (by rw [hhalf]; rw [Nat.pow_succ] at h; omega)
    rw [hhalf] at hrest
    rw [List.range'_succ, List.foldr_cons, ← val_square hrest]
    simp only [Nat.testBit_eq_decide_div_mod_eq, decide_eq_true_eq]

theorem val_power {e : Nat} (he : e < 2 ^ 256) : (power b e).val = b.val ^ e % m := by
  have hone : (⟨1 % m, Nat.mod_lt 1 b.pos⟩ : Fin m).val = 1 % m := rfl
  have h := val_foldr_square (b := b) hone 256 0 (e := e) (by rwa [Nat.pow_zero, Nat.div_one])
  rw [Nat.pow_zero, Nat.div_one, ← List.range_eq_range'] at h
  exact h

end Powers

/-! ## Primes -/

section Primes

variable {n a q r : Nat}

/-- What shows that a prime `q` divides every prime divisor of `n` less one: a base whose power
`n - 1` is one, while already its power `(n - 1) / q` differs from one modulo each divisor. -/
structure Certifies (n : Nat) (base : Fin n) (q : Nat) : Prop where
  lt : n < 2 ^ 256
  prime : q.Prime
  dvd : q ∣ n - 1
  full : (power base (n - 1)).val = 1
  part : ((power base ((n - 1) / q)).val - 1).Coprime n

theorem Certifies.dvd_sub_one {base : Fin n} (h : Certifies n base q) (hr : r.Prime)
    (hdvd : r ∣ n) : q ∣ r - 1 := by
  have := Fact.mk hr
  have hpower {e : Nat} (he : e ≤ n - 1) :
      ((power base e).val : ZMod r) = (base.val : ZMod r) ^ e := by
    have hlt := h.lt
    rw [val_power (by omega), ← Nat.cast_pow, ZMod.natCast_eq_natCast_iff]
    exact (Nat.mod_modEq _ n).of_dvd hdvd
  have hfull : (base.val : ZMod r) ^ (n - 1) = 1 := by
    rw [← hpower le_rfl, h.full, Nat.cast_one]
  have hpart : (base.val : ZMod r) ^ ((n - 1) / q) ≠ 1 := by
    rw [← hpower (Nat.div_le_self _ _)]
    intro hone
    have hless : r ∣ (power base ((n - 1) / q)).val - 1 := by
      rcases Nat.eq_zero_or_pos (power base ((n - 1) / q)).val with hzero | hpos
      · rw [hzero]
        exact dvd_zero r
      · rw [← ZMod.natCast_eq_zero_iff, Nat.cast_sub hpos, hone, Nat.cast_one, sub_self]
    exact hr.one_lt.ne' (Nat.eq_one_of_dvd_coprimes h.part hless hdvd)
  -- The order of the base divides `n - 1`, but not with `q` taken out of it.
  have horder : q ∣ orderOf (base.val : ZMod r) := by
    by_contra hnot
    have hcoprime := ((Nat.Prime.coprime_iff_not_dvd h.prime).mpr hnot).symm
    have hall := orderOf_dvd_of_pow_eq_one hfull
    rw [← Nat.mul_div_cancel' h.dvd] at hall
    exact hpart (orderOf_dvd_iff_pow_eq_one.mp (hcoprime.dvd_of_dvd_mul_left hall))
  have hne : (base.val : ZMod r) ≠ 0 := by
    intro hzero
    have hn : n - 1 ≠ 0 := by
      intro hn
      rw [hn, Nat.zero_div, pow_zero] at hpart
      exact hpart rfl
    rw [hzero, zero_pow hn] at hfull
    exact zero_ne_one hfull
  exact horder.trans (ZMod.orderOf_dvd_card_sub_one hne)

/-- Primes whose product is above the root of `n` leave no room for a divisor of `n`. -/
theorem prime_of_certified (base : Fin n) (qs : Finset Nat) (hn : 1 < n)
    (hqs : ∀ q ∈ qs, Certifies n base q) (hsize : n < (∏ q ∈ qs, q) ^ 2) : n.Prime := by
  by_contra hnot
  have hr := Nat.minFac_prime (Nat.ne_of_gt hn)
  have hdvd : ∏ q ∈ qs, q ∣ n.minFac - 1 :=
    Finset.prod_primes_dvd _ (fun q hq => (hqs q hq).prime.prime)
      fun q hq => (hqs q hq).dvd_sub_one hr n.minFac_dvd
  have hle := Nat.le_of_dvd (Nat.sub_pos_of_lt hr.one_lt) hdvd
  have hsquare := Nat.minFac_sq_le_self (Nat.zero_lt_of_lt hn) hnot
  have hmono : (∏ q ∈ qs, q) ^ 2 ≤ n.minFac ^ 2 := Nat.pow_le_pow_left (by omega) 2
  omega

theorem prime_of_certifies (base : Fin n) (q : Nat) (hn : 1 < n) (h : Certifies n base q)
    (hsize : n < q ^ 2) : n.Prime := by
  apply prime_of_certified base {q} hn
  · simpa using h
  · simpa using hsize

end Primes

theorem prime_39_digits : Nat.Prime 255515944373312847190720520512484175977 := by
  apply prime_of_certified (Fin.ofNat _ 2) {1627, 2657, 4423, 41201, 96557}
  · decide
  · simp only [Finset.mem_insert, Finset.mem_singleton, forall_eq_or_imp, forall_eq]
    refine ⟨?_, ?_, ?_, ?_, ?_⟩ <;>
      exact ⟨by decide, by norm_num, by decide, by decide +kernel, by decide +kernel⟩
  · decide

theorem prime_72_digits :
    Nat.Prime 205115282021455665897114700593932402728804164701536103180137503955397371 :=
  prime_of_certifies (Fin.ofNat _ 2) _ (by decide)
    ⟨by decide, prime_39_digits, by decide, by decide +kernel, by decide +kernel⟩ (by decide)

theorem prime_fieldOrder : fieldOrder.Prime :=
  prime_of_certifies (Fin.ofNat _ 2) _ (by decide)
    ⟨by decide, prime_72_digits, by decide, by decide +kernel, by decide +kernel⟩ (by decide)

instance : Fact fieldOrder.Prime := ⟨prime_fieldOrder⟩

/-! ## Coordinates as elements of the field -/

/-- A coordinate as a residue, for which the laws of fields hold. -/
def residue (a : Coordinate) : ZMod fieldOrder := (a.val : ZMod fieldOrder)

section Residues

variable {a root : Coordinate}

theorem residue_injective : Function.Injective residue := by
  intro a b h
  rw [residue, residue, ZMod.natCast_eq_natCast_iff, Nat.ModEq, Nat.mod_eq_of_lt a.isLt,
    Nat.mod_eq_of_lt b.isLt] at h
  exact Fin.ext h

@[simp] theorem residue_mul (a b : Coordinate) : residue (a * b) = residue a * residue b := by
  rw [residue, Fin.val_mul, ZMod.natCast_mod, Nat.cast_mul]
  rfl

@[simp] theorem residue_add (a b : Coordinate) : residue (a + b) = residue a + residue b := by
  rw [residue, Fin.val_add, ZMod.natCast_mod, Nat.cast_add]
  rfl

theorem val_neg (ha : a ≠ 0) : (-a).val = fieldOrder - a.val := by
  rw [Fin.val_neg, if_neg ha]

@[simp] theorem residue_zero : residue 0 = 0 := Nat.cast_zero

@[simp] theorem residue_neg (a : Coordinate) : residue (-a) = -residue a := by
  by_cases ha : a = 0
  · subst ha
    rw [residue_zero, neg_zero]
    rfl
  · rw [residue, val_neg ha, Nat.cast_sub (Nat.le_of_lt a.isLt), ZMod.natCast_self, zero_sub]
    rfl

@[simp] theorem residue_power (a : Coordinate) {e : Nat} (he : e < 2 ^ 256) :
    residue (power a e) = residue a ^ e := by
  rw [residue, val_power he, ZMod.natCast_mod, Nat.cast_pow]
  rfl

theorem odd_neg (ha : a ≠ 0) : (-a).val % 2 = 1 ↔ ¬a.val % 2 = 1 := by
  have hodd : fieldOrder % 2 = 1 := by decide
  have hlt := a.isLt
  rw [val_neg ha]
  omega

theorem neg_mul_neg_self (a : Coordinate) : -a * -a = a * a := by
  apply residue_injective
  rw [residue_mul, residue_mul, residue_neg, neg_mul_neg]

theorem eq_or_eq_neg_of_mul_self (h : root * root = a * a) : root = a ∨ root = -a := by
  have hresidue := congrArg residue h
  rw [residue_mul, residue_mul, mul_self_eq_mul_self_iff, ← residue_neg] at hresidue
  exact hresidue.imp (residue_injective ·) (residue_injective ·)

/-! ## Square roots -/

theorem squareRoot?_eq_some : squareRoot? a = some root ↔
    power a ((fieldOrder + 1) / 4) = root ∧ root * root = a := by
  simp only [squareRoot?, Option.ite_none_right_eq_some, Option.some.injEq]
  constructor
  · rintro ⟨hroot, rfl⟩
    exact ⟨rfl, hroot⟩
  · rintro ⟨rfl, hroot⟩
    exact ⟨hroot, rfl⟩

/-- The order leaves three when divided by four, so that the power of a square is a root of it. -/
theorem pow_mul_pow_eq (r : ZMod fieldOrder) :
    (r * r) ^ ((fieldOrder + 1) / 4) * (r * r) ^ ((fieldOrder + 1) / 4) = r * r := by
  by_cases hr : r = 0
  · subst hr
    rw [mul_zero, zero_pow (by decide), mul_zero]
  · have hexponent : 2 * ((fieldOrder + 1) / 4 + (fieldOrder + 1) / 4) = fieldOrder - 1 + 2 := by
      decide
    rw [← pow_add, ← pow_two, ← pow_mul, hexponent, pow_add, ZMod.pow_card_sub_one_eq_one hr,
      one_mul]

/-- Both signs of the root that is found are roots, and there are no others. -/
theorem mul_self_eq_iff {y : Coordinate} :
    y * y = a ↔ ∃ root, squareRoot? a = some root ∧ (y = root ∨ y = -root) := by
  constructor
  · rintro rfl
    have hroot : power (y * y) ((fieldOrder + 1) / 4) * power (y * y) ((fieldOrder + 1) / 4) =
        y * y := by
      apply residue_injective
      rw [residue_mul, residue_power _ (by decide), residue_mul, pow_mul_pow_eq]
    exact ⟨_, squareRoot?_eq_some.mpr ⟨rfl, hroot⟩, eq_or_eq_neg_of_mul_self hroot.symm⟩
  · rintro ⟨root, hroot, rfl | rfl⟩
    · exact (squareRoot?_eq_some.mp hroot).2
    · exact (neg_mul_neg_self root).trans (squareRoot?_eq_some.mp hroot).2

/-- Minus seven is no cube: it would be one by its power, as the order leaves one when divided by
three. So no point of the curve has zero for its second coordinate. -/
theorem cubic_ne_zero (x : Coordinate) : cubic x ≠ 0 := by
  intro hzero
  have hcube : residue x ^ 3 = residue (-7) := by
    have h := congrArg residue hzero
    rw [cubic, residue_add, residue_mul, residue_mul, residue_zero] at h
    rw [residue_neg, ← add_eq_zero_iff_eq_neg, ← h]
    ring
  have hne : residue x ≠ 0 := by
    intro hx
    rw [hx, zero_pow (by decide), ← residue_zero] at hcube
    exact absurd (residue_injective hcube) (by decide)
  have hpower : residue (power (-7) ((fieldOrder - 1) / 3)) = residue 1 := by
    have hexponent : 3 * ((fieldOrder - 1) / 3) = fieldOrder - 1 := by decide
    rw [residue_power _ (by decide), ← hcube, ← pow_mul, hexponent,
      ZMod.pow_card_sub_one_eq_one hne]
    exact Nat.cast_one.symm
  exact absurd (residue_injective hpower) (by decide +kernel)

end Residues

end Utxo.Secp256k1
