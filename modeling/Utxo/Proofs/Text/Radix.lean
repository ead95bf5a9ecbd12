import Mathlib.Data.Nat.Digits.Lemmas
import Utxo.Text.Radix

/-!
# Digits with zeros in front

A row of digits, most significant first, is a number and some zeros in front of it, and every number
and number of zeros is one row of digits.
-/

namespace Utxo.Radix

variable {base k n d : Nat} {ds : List Nat}

theorem digits_eq (hbase : 1 < base) (n : Nat) : digits base n = Nat.digits base n := by
  induction n using Nat.strongRecOn with
  | _ n ih =>
    rw [digits]
    by_cases hn : n = 0
    · rw [dif_neg (fun h => h.2 hn), hn, Nat.digits_zero]
    · have hpos : 0 < n := Nat.pos_of_ne_zero hn
      rw [dif_pos ⟨hbase, hn⟩, ih _ (Nat.div_lt_self hpos hbase), Nat.digits_def' hbase hpos]

theorem value_eq (ds : List Nat) : value base ds = Nat.ofDigits base ds := by
  induction ds with
  | nil => rfl
  | cons d rest ih =>
    rw [value, Nat.ofDigits_cons, ih]

/-! ## Zeros in front -/

/-- How many zeros stand in front of a row. -/
def zeros (ds : List Nat) : Nat := (ds.takeWhile (· == 0)).length

theorem zeros_replicate_append (h : ds.head? ≠ some 0) :
    zeros (List.replicate k 0 ++ ds) = k := by
  have hnone : ds.takeWhile (· == 0) = [] := by
    cases ds with
    | nil => rfl
    | cons d rest => exact List.takeWhile_cons_of_neg (by simpa using h)
  rw [zeros, List.takeWhile_append_of_pos (by simp), hnone, List.append_nil,
    List.length_replicate]

/-- A row starts with all its zeros. -/
theorem exists_zeros (ds : List Nat) :
    ∃ rest, ds = List.replicate (zeros ds) 0 ++ rest ∧ rest.head? ≠ some 0 := by
  induction ds with
  | nil => exact ⟨[], rfl, nofun⟩
  | cons d rest ih =>
    by_cases hd : d = 0
    · obtain ⟨tail, hrest, htail⟩ := ih
      refine ⟨tail, ?_, htail⟩
      rw [zeros, List.takeWhile_cons_of_pos (by simpa using hd), List.length_cons,
        List.replicate_succ, List.cons_append, hd]
      exact congrArg (0 :: ·) hrest
    · refine ⟨d :: rest, ?_, by simpa using hd⟩
      rw [zeros, List.takeWhile_cons_of_neg (by simpa using hd)]
      rfl

/-! ## Rows -/

/-- The row of digits of a number behind `k` zeros. -/
def row (base k n : Nat) : List Nat := List.replicate k 0 ++ (digits base n).reverse

theorem lt_of_mem_row (hbase : 1 < base) (h : d ∈ row base k n) : d < base := by
  rw [row, List.mem_append, List.mem_reverse, digits_eq hbase] at h
  rcases h with h | h
  · rw [List.eq_of_mem_replicate h]
    omega
  · exact Nat.digits_lt_base hbase h

theorem value_zeros_append :
    value base (List.replicate k 0 ++ ds).reverse = value base ds.reverse := by
  rw [List.reverse_append, List.reverse_replicate, value_eq, value_eq,
    Nat.ofDigits_append_replicate_zero]

theorem value_row (hbase : 1 < base) : value base (row base k n).reverse = n := by
  rw [row, value_zeros_append, List.reverse_reverse, digits_eq hbase, value_eq,
    Nat.ofDigits_digits]

theorem zeros_row (hbase : 1 < base) : zeros (row base k n) = k := by
  apply zeros_replicate_append
  rw [List.head?_reverse, digits_eq hbase]
  by_cases hn : n = 0
  · rw [hn, Nat.digits_zero]
    nofun
  · rw [List.getLast?_eq_some_getLast (Nat.digits_ne_nil_iff_ne_zero.mpr hn)]
    simpa using Nat.getLast_digit_ne_zero base hn

/-- A row is that of its own zeros and its own number. -/
theorem row_zeros_value (hbase : 1 < base) (h : ∀ d ∈ ds, d < base) :
    row base (zeros ds) (value base ds.reverse) = ds := by
  obtain ⟨rest, hds, hrest⟩ := exists_zeros ds
  have hvalue : value base ds.reverse = value base rest.reverse := by
    rw [hds, value_zeros_append]
  have hdigits : digits base (value base rest.reverse) = rest.reverse := by
    rw [digits_eq hbase, value_eq]
    apply Nat.digits_ofDigits base hbase
    · intro d hd
      apply h
      rw [hds]
      exact List.mem_append_right _ (List.mem_reverse.mp hd)
    · intro hne hlast
      apply hrest
      rw [← List.getLast?_reverse, List.getLast?_eq_some_getLast hne, hlast]
  rw [row, hvalue, hdigits, List.reverse_reverse]
  exact hds.symm

theorem row_eq_iff (hbase : 1 < base) (h : ∀ d ∈ ds, d < base) :
    row base k n = ds ↔ zeros ds = k ∧ value base ds.reverse = n := by
  constructor
  · rintro rfl
    exact ⟨zeros_row hbase, value_row hbase⟩
  · rintro ⟨rfl, rfl⟩
    exact row_zeros_value hbase h

end Utxo.Radix
