/-! # Digits of a number -/

namespace Utxo.Radix

/-- The digits of `n`, least significant first, with no zero on top. -/
def digits (base n : Nat) : List Nat :=
  if _h : 2 ≤ base ∧ n ≠ 0 then n % base :: digits base (n / base) else []
termination_by n
decreasing_by exact Nat.div_lt_self (by omega) (by omega)

def value (base : Nat) : List Nat → Nat
  | [] => 0
  | d :: rest => d + base * value base rest

end Utxo.Radix
