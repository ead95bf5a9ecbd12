import Mathlib.Algebra.Order.Ring.Nat
import Utxo.Proofs.Bytes.Reading
import Utxo.Script.Number

/-!
# Numbers in scripts

A byte string of up to eight bytes is a magnitude and a sign, so it stands for one number. Most
numbers have several byte strings, one for every width with room for them, and the shortest of
these is the one that is written.
-/

namespace Utxo

namespace Bytes

variable {a b : Bytes}

theorem capacity_eq (width : Nat) : capacity width = 2 ^ (8 * width) := by
  induction width with
  | zero => rfl
  | succ width ih => rw [capacity, ih, Nat.mul_succ, Nat.pow_add, Nat.mul_comm]

theorem toNatLE_inj (hlength : a.length = b.length) (h : toNatLE a = toNatLE b) : a = b := by
  rw [← ofNatLE_toNatLE a, ← ofNatLE_toNatLE b, hlength, h]

theorem toNatLE_append (a b : Bytes) :
    toNatLE (a ++ b) = toNatLE a + capacity a.length * toNatLE b := by
  induction a with
  | nil => simp [toNatLE, capacity]
  | cons x rest ih =>
    rw [List.cons_append, toNatLE, ih, toNatLE, List.length_cons, capacity, Nat.mul_add,
      Nat.mul_assoc, Nat.add_assoc]

theorem toNatLE_replicate_zero (width : Nat) : toNatLE (List.replicate width 0) = 0 := by
  induction width with
  | zero => rfl
  | succ width ih =>
    rw [List.replicate_succ, toNatLE, ih]
    rfl

end Bytes

namespace ScriptNumber

variable {b : Bytes} {n : Int} {m w limit : Nat}

/-! ## Signs and magnitudes -/

/-- The topmost bit of a byte string. -/
def signBit (width : Nat) : Nat := 1 <<< (8 * width - 1)

theorem signBit_eq (width : Nat) : signBit width = 2 ^ (8 * width - 1) := Nat.one_shiftLeft _

theorem signBit_pos (width : Nat) : 0 < signBit width := by
  rw [signBit_eq]
  exact Nat.two_pow_pos _

theorem double_signBit (h : 0 < w) : 2 * signBit w = Bytes.capacity w := by
  have hwidth : 8 * w = 8 * w - 1 + 1 := by omega
  rw [Bytes.capacity_eq, signBit_eq, ← Nat.pow_succ', Nat.succ_eq_add_one, ← hwidth]

theorem length_le_of_decode? (h : decode? maxWidth b = some n) : b.length ≤ maxWidth := by
  by_contra hlong
  unfold decode? at h
  rw [Nat.min_self, if_pos (by omega)] at h
  cases h

theorem decode?_of_long (h : maxWidth < b.length) : decode? maxWidth b = none := by
  unfold decode?
  rw [Nat.min_self, if_pos h]

/-- What is within a limit is read as it is within the widest one. -/
theorem decode?_eq_some_iff :
    decode? limit b = some n ↔ b.length ≤ limit ∧ decode? maxWidth b = some n := by
  unfold decode?
  rw [Nat.min_self]
  by_cases hlong : maxWidth < b.length
  · have hmin : min limit maxWidth < b.length := by omega
    simp [hlong, hmin]
  by_cases hlimit : limit < b.length
  · have hmin : min limit maxWidth < b.length := by omega
    simp [hmin, Nat.not_le_of_lt hlimit]
  · have hmin : ¬min limit maxWidth < b.length := by omega
    rw [if_neg hmin, if_neg hlong, and_iff_right (by omega)]

theorem decode?_nil : decode? maxWidth [] = some 0 := rfl

theorem decode?_of_lt (hlength : b.length ≤ maxWidth) (h : Bytes.toNatLE b < signBit b.length) :
    decode? maxWidth b = some (Bytes.toNatLE b : Int) := by
  have hshort : ¬maxWidth < b.length := by omega
  unfold signBit at h
  unfold decode?
  rw [Nat.min_self, if_neg hshort]
  exact if_neg fun hneg => absurd hneg.2 (by omega)

theorem decode?_of_ge (hb : b ≠ []) (hlength : b.length ≤ maxWidth)
    (h : signBit b.length ≤ Bytes.toNatLE b) :
    decode? maxWidth b = some (-((Bytes.toNatLE b - signBit b.length : Nat) : Int)) := by
  have hshort : ¬maxWidth < b.length := by omega
  unfold signBit at h ⊢
  unfold decode?
  rw [Nat.min_self, if_neg hshort]
  exact if_pos ⟨hb, h⟩

/-- What a byte string stands for is a magnitude below the sign bit, with that bit or without. -/
theorem exists_magnitude (hb : b ≠ []) (hlength : b.length ≤ maxWidth) :
    ∃ m < signBit b.length,
      (Bytes.toNatLE b = m ∧ decode? maxWidth b = some (m : Int)) ∨
        (Bytes.toNatLE b = m + signBit b.length ∧ decode? maxWidth b = some (-(m : Int))) := by
  have hlt := Bytes.toNatLE_lt b
  rw [← double_signBit (List.length_pos_iff.mpr hb)] at hlt
  by_cases h : Bytes.toNatLE b < signBit b.length
  · exact ⟨_, h, .inl ⟨rfl, decode?_of_lt hlength h⟩⟩
  · have hge := Nat.le_of_not_lt h
    refine ⟨Bytes.toNatLE b - signBit b.length, by omega, .inr ⟨by omega, ?_⟩⟩
    exact decode?_of_ge hb hlength hge

theorem natAbs_lt_signBit (hb : b ≠ []) (h : decode? maxWidth b = some n) :
    n.natAbs < signBit b.length := by
  obtain ⟨m, hm, ⟨-, hdecode⟩ | ⟨-, hdecode⟩⟩ := exists_magnitude hb (length_le_of_decode? h)
  · rw [hdecode, Option.some.injEq] at h
    omega
  · rw [hdecode, Option.some.injEq] at h
    omega

theorem natAbs_lt_of_limit (hlimit : 0 < limit) (h : decode? limit b = some n) :
    n.natAbs < signBit limit := by
  obtain ⟨hlength, hdecode⟩ := decode?_eq_some_iff.mp h
  by_cases hb : b = []
  · subst hb
    cases h
    exact signBit_pos limit
  · have hlt := natAbs_lt_signBit hb hdecode
    rw [signBit_eq] at hlt ⊢
    exact Nat.lt_of_lt_of_le hlt (Nat.pow_le_pow_right (by decide) (by omega))

/-! ## The shortest byte string -/

theorem length_encode (n : Int) : (encode n).length = width n.natAbs := Bytes.length_ofNatLE _ _

/-- A magnitude and a sign have room in `w` bytes just if no bit of the magnitude is the topmost
one. -/
theorem width_le_iff (hm : m ≠ 0) : width m ≤ w ↔ m < signBit w := by
  rw [signBit_eq, ← Nat.log2_lt hm, width, if_neg hm]
  omega

theorem toNatLE_encode (n : Int) :
    Bytes.toNatLE (encode n) = n.natAbs + if n < 0 then signBit (width n.natAbs) else 0 := by
  unfold encode
  refine Bytes.toNatLE_ofNatLE_of_lt ?_
  by_cases hn : n = 0
  · subst hn
    decide
  · have hm : n.natAbs ≠ 0 := by omega
    have hlt := (width_le_iff hm).mp (Nat.le_refl _)
    have hpos : 0 < width n.natAbs := by
      rw [width, if_neg hm]
      omega
    rw [← double_signBit hpos]
    unfold signBit at hlt ⊢
    split <;> omega

theorem decode?_encode (h : width n.natAbs ≤ maxWidth) : decode? maxWidth (encode n) = some n := by
  by_cases hn : n = 0
  · subst hn
    rfl
  have hlt := (width_le_iff (m := n.natAbs) (by omega)).mp (Nat.le_refl _)
  have hvalue := toNatLE_encode n
  have hlength := length_encode n
  by_cases hneg : n < 0
  · rw [if_pos hneg, ← hlength] at hvalue
    have hne : encode n ≠ [] := by
      intro hnil
      rw [hnil] at hvalue
      have hpos := signBit_pos ([] : Bytes).length
      simp only [Bytes.toNatLE] at hvalue
      omega
    rw [decode?_of_ge hne (by omega) (by omega), Option.some.injEq]
    omega
  · rw [if_neg hneg] at hvalue
    rw [decode?_of_lt (by omega) (by rw [hvalue, hlength]; omega), Option.some.injEq]
    omega

theorem length_encode_le (h : decode? maxWidth b = some n) : (encode n).length ≤ b.length := by
  rw [length_encode]
  by_cases hn : n = 0
  · subst hn
    exact Nat.zero_le _
  have hb : b ≠ [] := by
    rintro rfl
    cases h
    exact hn rfl
  exact (width_le_iff (by omega)).mpr (natAbs_lt_signBit hb h)

/-- No other byte string for a number is as short as the one that is written. -/
theorem eq_encode_of_length_eq (h : decode? maxWidth b = some n)
    (hlength : b.length = (encode n).length) : b = encode n := by
  refine Bytes.toNatLE_inj hlength ?_
  rw [length_encode] at hlength
  rw [toNatLE_encode]
  by_cases hb : b = []
  · subst hb
    cases h
    rfl
  obtain ⟨m, hm, ⟨hvalue, hdecode⟩ | ⟨hvalue, hdecode⟩⟩ :=
    exists_magnitude hb (length_le_of_decode? h)
  · rw [hdecode, Option.some.injEq] at h
    rw [if_neg (by omega), hvalue]
    omega
  · rw [hdecode, Option.some.injEq] at h
    -- Zero is written without a byte, so a sign stands before something else.
    have hneg : n < 0 := by
      by_contra hzero
      obtain rfl : n = 0 := by omega
      exact hb (List.eq_nil_of_length_eq_zero hlength)
    rw [if_pos hneg, hvalue, ← hlength]
    omega

/-! ## Zero -/

/-- Zeros only, except that the last byte may be the bit of the sign. -/
def IsZero (b : Bytes) : Prop :=
  ∃ width, b = List.replicate width 0 ∨ b = List.replicate width 0 ++ [0x80]

theorem toNatLE_negativeZero (width : Nat) :
    Bytes.toNatLE (List.replicate width 0 ++ [0x80]) = signBit (width + 1) := by
  have hdouble : 2 * signBit (width + 1) = 256 * Bytes.capacity width :=
    double_signBit (Nat.succ_pos width)
  rw [Bytes.toNatLE_append, Bytes.toNatLE_replicate_zero, List.length_replicate]
  have hsign : Bytes.toNatLE [0x80] = 128 := rfl
  rw [hsign]
  omega

theorem decode?_eq_zero_iff : decode? maxWidth b = some 0 ↔ b.length ≤ maxWidth ∧ IsZero b := by
  constructor
  · intro h
    have hlength := length_le_of_decode? h
    refine ⟨hlength, ?_⟩
    by_cases hb : b = []
    · exact ⟨0, .inl hb⟩
    obtain ⟨m, -, ⟨hvalue, hdecode⟩ | ⟨hvalue, hdecode⟩⟩ := exists_magnitude hb hlength
    · rw [hdecode, Option.some.injEq] at h
      refine ⟨b.length, .inl (Bytes.toNatLE_inj List.length_replicate.symm ?_)⟩
      rw [hvalue, Bytes.toNatLE_replicate_zero]
      omega
    · rw [hdecode, Option.some.injEq] at h
      have hpos := List.length_pos_iff.mpr hb
      have hwidth : b.length = b.length - 1 + 1 := by omega
      refine ⟨b.length - 1, .inr (Bytes.toNatLE_inj ?_ ?_)⟩
      · simpa using hwidth
      · rw [hvalue, toNatLE_negativeZero, ← hwidth]
        omega
  · rintro ⟨hlength, width, rfl | rfl⟩
    · have hvalue := Bytes.toNatLE_replicate_zero width
      rw [decode?_of_lt hlength (by rw [hvalue]; exact signBit_pos _), hvalue]
      rfl
    · have hvalue := toNatLE_negativeZero width
      have hwidth : (List.replicate width (0 : UInt8) ++ [0x80]).length = width + 1 := by simp
      rw [decode?_of_ge (by simp) hlength (by rw [hvalue, hwidth]), hvalue, hwidth, Nat.sub_self]
      rfl

/-! ## All byte strings for a number -/

/-- The byte strings that stand for `n`: its bytes in any width up to the largest where a bit is
left for the sign. The sign alone is a zero too. -/
def Spells (b : Bytes) (n : Nat) : Prop :=
  b.length ≤ maxWidth ∧
    (Bytes.toNatLE b = n ∧ 2 * n < Bytes.capacity b.length ∨
      n = 0 ∧ 2 * Bytes.toNatLE b = Bytes.capacity b.length)

instance (b : Bytes) (n : Nat) : Decidable (Spells b n) := inferInstanceAs (Decidable (_ ∧ _))

theorem spells_iff {n : Nat} : Spells b n ↔ decode? maxWidth b = some (n : Int) := by
  by_cases hlong : maxWidth < b.length
  · rw [decode?_of_long hlong]
    exact iff_of_false (fun h => absurd h.1 (Nat.not_le_of_lt hlong)) nofun
  have hlength := Nat.le_of_not_lt hlong
  unfold Spells
  by_cases hb : b = []
  · subst hb
    rw [decode?_nil, Option.some.injEq]
    simp only [Bytes.toNatLE, List.length_nil, Bytes.capacity]
    omega
  rw [← double_signBit (List.length_pos_iff.mpr hb)]
  obtain ⟨m, hm, ⟨hvalue, hdecode⟩ | ⟨hvalue, hdecode⟩⟩ := exists_magnitude hb hlength
  · rw [hdecode, hvalue, Option.some.injEq]
    omega
  · rw [hdecode, hvalue, Option.some.injEq]
    omega

end ScriptNumber

end Utxo
