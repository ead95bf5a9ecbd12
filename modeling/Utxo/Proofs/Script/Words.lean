import Mathlib.Data.List.Induction
import Utxo.Proofs.Interpreter.Commands
import Utxo.Proofs.Script.Numbers

/-!
# Script numbers in machine words

The bytes of a number are or-ed into a word of 64 bits, whose bit of the sign is masked out. No
number that is read is too large for the casts between words or for adding one.
-/

namespace Utxo

namespace ScriptNumber

variable {b : Bytes} {n : Int} {w : UInt64} {k : Nat}

/-! ## Bytes in a word -/

/-- The bytes shifted to their places and or-ed together. -/
def word (b : Bytes) : UInt64 :=
  b.zipIdx.foldl (fun w (x, i) => w ||| x.toUInt64 <<< .ofNat (8 * i)) 0

theorem word_append (b : Bytes) (x : UInt8) :
    word (b ++ [x]) = word b ||| x.toUInt64 <<< .ofNat (8 * b.length) := by
  simp [word, List.zipIdx_append]

theorem toNat_shiftLeft_places (hk : k < 8) (hw : w.toNat < 2 ^ 8) :
    (w <<< UInt64.ofNat (8 * k)).toNat = w.toNat * 2 ^ (8 * k) := by
  have hplaces : (UInt64.ofNat (8 * k)).toNat = 8 * k :=
    UInt64.toNat_ofNat_of_lt' (by simp only [UInt64.size]; omega)
  have hroom : w.toNat * 2 ^ (8 * k) < 2 ^ 64 := by
    calc w.toNat * 2 ^ (8 * k)
      _ < 2 ^ 8 * 2 ^ (8 * k) := Nat.mul_lt_mul_of_pos_right hw (Nat.two_pow_pos _)
      _ = 2 ^ (8 + 8 * k) := (Nat.pow_add _ _ _).symm
      _ ≤ 2 ^ 64 := Nat.pow_le_pow_right (by decide) (by omega)
  have hbits : 8 * k < 64 := by omega
  rw [UInt64.toNat_shiftLeft, hplaces, Nat.mod_eq_of_lt hbits, Nat.shiftLeft_eq,
    Nat.mod_eq_of_lt hroom]

theorem toNat_word (h : b.length ≤ maxWidth) : (word b).toNat = Bytes.toNatLE b := by
  unfold maxWidth at h
  -- Each byte stands above all the bits of those before it.
  induction b using List.reverseRecOn with
  | nil => rfl
  | append_singleton init last ih =>
    rw [List.length_append, List.length_singleton] at h
    have hlt := Bytes.toNatLE_lt init
    rw [Bytes.capacity_eq] at hlt
    have hor := Nat.two_pow_add_eq_or_of_lt hlt last.toNat
    have hlast : last.toUInt64.toNat = last.toNat := UInt8.toNat_toUInt64 last
    rw [word_append, UInt64.toNat_or, ih (by omega),
      toNat_shiftLeft_places (by omega) (by rw [hlast]; exact last.toNat_lt), hlast,
      Nat.mul_comm, Nat.or_comm, ← hor, Bytes.toNatLE_append, Bytes.capacity_eq, Nat.add_comm]
    rfl

/-! ## The sign -/

def isNegative (b : Bytes) : Bool := b.getLast?.any (· &&& 0x80 != 0)

theorem and_signBit_ne_zero_iff (x : UInt8) : (x &&& 0x80 != 0) = true ↔ 128 ≤ x.toNat := by
  -- There are few enough bytes to look at each of them.
  have hall : ∀ n < UInt8.size, (UInt8.ofNat n &&& 0x80 != 0) = true ↔ 128 ≤ n := by
    decide +kernel
  simpa using hall x.toNat x.toNat_lt

theorem isNegative_iff : isNegative b = true ↔ b ≠ [] ∧ signBit b.length ≤ Bytes.toNatLE b := by
  rcases b.eq_nil_or_concat with rfl | ⟨init, last, rfl⟩
  · simp [isNegative]
  rw [List.concat_eq_append]
  have hdouble : 2 * signBit (init.length + 1) = 256 * Bytes.capacity init.length :=
    double_signBit (Nat.succ_pos _)
  have hvalue : Bytes.toNatLE (init ++ [last]) =
      Bytes.toNatLE init + Bytes.capacity init.length * last.toNat := Bytes.toNatLE_append init _
  have hlt := Bytes.toNatLE_lt init
  have hne : init ++ [last] ≠ [] := by simp
  have hwidth : (init ++ [last]).length = init.length + 1 := by simp
  have hsign : isNegative (init ++ [last]) = (last &&& 0x80 != 0) := by simp [isNegative]
  rw [and_iff_right hne, hwidth, hvalue, hsign, and_signBit_ne_zero_iff]
  constructor
  · intro hlast
    have hle := Nat.mul_le_mul_left (Bytes.capacity init.length) hlast
    omega
  · intro hle
    by_contra hlast
    have hsmall : last.toNat + 1 ≤ 128 := by omega
    have hle' := Nat.mul_le_mul_left (Bytes.capacity init.length) hsmall
    rw [Nat.mul_add] at hle'
    omega

/-- The word without the bit of the sign. -/
def magnitude (b : Bytes) : UInt64 :=
  if isNegative b then word b &&& ~~~((0x80 : UInt64) <<< UInt64.ofNat (8 * (b.length - 1)))
  else word b

/-- Masking the topmost bit out takes away what it stands for. -/
theorem and_not_two_pow {m : Nat} (hk : k < 64) (hm : m < 2 ^ k) :
    (2 ^ k + m) &&& (2 ^ 64 - (2 ^ k + 1)) = m := by
  have hpow : 2 ^ k < 2 ^ 64 := Nat.pow_lt_pow_right (by decide) hk
  have hor : 2 ^ k + m = 2 ^ k ||| m := by simpa using Nat.two_pow_add_eq_or_of_lt hm 1
  apply Nat.eq_of_testBit_eq
  intro i
  rw [Nat.testBit_and, Nat.testBit_two_pow_sub_succ hpow, hor, Nat.testBit_or,
    Nat.testBit_two_pow]
  by_cases hi : k = i
  · subst hi
    simp [Nat.testBit_lt_two_pow hm]
  by_cases hhigh : i < 64
  · simp [hi, hhigh]
  · have hmi : m < 2 ^ i := Nat.lt_of_lt_of_le hm (Nat.pow_le_pow_right (by decide) (by omega))
    simp [hi, Nat.testBit_lt_two_pow hmi]

theorem toNat_and_not (hk : k < 64) {bit : UInt64} (hbit : bit.toNat = 2 ^ k)
    (hge : 2 ^ k ≤ w.toNat) (hlt : w.toNat < 2 * 2 ^ k) :
    (w &&& ~~~bit).toNat = w.toNat - 2 ^ k := by
  have hsum : w.toNat = 2 ^ k + (w.toNat - 2 ^ k) := by omega
  have hnot : (~~~bit).toNat = 2 ^ 64 - (2 ^ k + 1) := by
    rw [UInt64.toNat_not, hbit]
    simp only [UInt64.size]
    omega
  rw [UInt64.toNat_and, hnot]
  conv_lhs => rw [hsum]
  exact and_not_two_pow hk (by omega)

theorem toNat_magnitude_of_negative (hlength : b.length ≤ maxWidth) (h : isNegative b = true) :
    (magnitude b).toNat = Bytes.toNatLE b - signBit b.length := by
  obtain ⟨hb, hge⟩ := isNegative_iff.mp h
  have hpos := List.length_pos_iff.mpr hb
  have hlt := Bytes.toNatLE_lt b
  rw [← double_signBit hpos] at hlt
  rw [← toNat_word hlength] at hge hlt ⊢
  unfold maxWidth at hlength
  have hbit : ((0x80 : UInt64) <<< UInt64.ofNat (8 * (b.length - 1))).toNat = signBit b.length := by
    rw [toNat_shiftLeft_places (by omega) (by decide), signBit_eq]
    have hsplit : 8 * b.length - 1 = 7 + 8 * (b.length - 1) := by omega
    rw [hsplit, Nat.pow_add]
    rfl
  unfold magnitude
  rw [if_pos h]
  rw [signBit_eq] at hbit hge hlt ⊢
  exact toNat_and_not (by omega) hbit hge hlt

theorem toNat_magnitude_of_positive (hlength : b.length ≤ maxWidth) (h : isNegative b = false) :
    (magnitude b).toNat = Bytes.toNatLE b := by
  unfold magnitude
  rw [h]
  exact toNat_word hlength

theorem decode?_eq_magnitude (hlength : b.length ≤ maxWidth) :
    decode? maxWidth b =
      some (if isNegative b then -((magnitude b).toNat : Int) else (magnitude b).toNat) := by
  cases h : isNegative b with
  | true =>
    obtain ⟨hb, hge⟩ := isNegative_iff.mp h
    rw [decode?_of_ge hb hlength hge, toNat_magnitude_of_negative hlength h]
    rfl
  | false =>
    rw [toNat_magnitude_of_positive hlength h]
    by_cases hb : b = []
    · subst hb
      rfl
    · have hlt : Bytes.toNatLE b < signBit b.length := by
        by_contra hge
        have htrue := isNegative_iff.mpr ⟨hb, Nat.le_of_not_lt hge⟩
        simp [h] at htrue
      rw [decode?_of_lt hlength hlt]
      rfl

theorem toNat_magnitude (h : decode? maxWidth b = some n) : (magnitude b).toNat = n.natAbs := by
  rw [decode?_eq_magnitude (length_le_of_decode? h), Option.some.injEq] at h
  split at h <;> omega

theorem natAbs_lt_word (h : decode? maxWidth b = some n) : n.natAbs < 2 ^ 63 :=
  natAbs_lt_of_limit (by decide) h

/-! ## Signed words -/

theorem toInt_toInt64 (h : w.toNat < 2 ^ 63) : w.toInt64.toInt = w.toNat := by
  apply BitVec.toInt_eq_toNat_of_lt
  show 2 * w.toNat < 2 ^ 64
  omega

/-- The number as a signed word, cast from the magnitude. -/
def toInt64 (b : Bytes) : Int64 :=
  if isNegative b then -(magnitude b).toInt64 else (magnitude b).toInt64

theorem toInt_magnitude (h : decode? maxWidth b = some n) :
    (magnitude b).toInt64.toInt = n.natAbs := by
  have hvalue := toNat_magnitude h
  have hlt := natAbs_lt_word h
  rw [toInt_toInt64 (by omega), hvalue]

theorem toInt_toInt64_of_decode? (h : decode? maxWidth b = some n) : (toInt64 b).toInt = n := by
  have hvalue := toInt_magnitude h
  have hlt := natAbs_lt_word h
  have hsign := h
  rw [decode?_eq_magnitude (length_le_of_decode? h), toNat_magnitude h, Option.some.injEq] at hsign
  unfold toInt64
  split
  · rename_i hneg
    rw [if_pos hneg] at hsign
    rw [Int64.toInt_neg, hvalue, hsign, Int.bmod_eq_of_le (by omega) (by omega)]
  · rename_i hpos
    rw [if_neg hpos] at hsign
    rw [hvalue, hsign]

/-- One more than what an operation takes is still a word. -/
theorem toInt_toInt64_add_one (h : decode? Stack.numberWidth b = some n) :
    (toInt64 b + 1).toInt = n + 1 := by
  have hlt : n.natAbs < 2 ^ 31 := natAbs_lt_of_limit (by decide) h
  have hvalue := toInt_toInt64_of_decode? (decode?_eq_some_iff.mp h).2
  have hone : (1 : Int64).toInt = 1 := rfl
  rw [Int64.toInt_add, hvalue, hone, Int.bmod_eq_of_le (by omega) (by omega)]

/-! ## The range of signed words -/

theorem exists_decode? (h : b.length ≤ maxWidth) : ∃ n, decode? maxWidth b = some n :=
  ⟨_, decode?_eq_magnitude h⟩

theorem width_le_of_ne_minValue {n : Int64} (h : n ≠ Int64.minValue) :
    width n.toInt.natAbs ≤ maxWidth := by
  have hlower := n.le_toInt
  have hupper := n.toInt_lt
  have hedge : n.toInt ≠ Int64.minValue.toInt := fun heq => h (Int64.toInt_inj.mp heq)
  rw [Int64.toInt_minValue] at hedge
  by_cases hzero : n.toInt.natAbs = 0
  · rw [hzero]
    exact Nat.zero_le _
  · have hsign : signBit maxWidth = 2 ^ 63 := rfl
    rw [width_le_iff hzero, hsign]
    omega

theorem length_encode_minValue : (encode Int64.minValue.toInt).length = 9 := by
  rw [length_encode]
  decide

/-- Numbers are written as short as they can be and read without loss. The only signed word that
is too large to be read again is the least one, and nothing that an operation takes is. -/
theorem shortest_and_exact :
    (∀ n : Int64, n ≠ Int64.minValue → decode? maxWidth (encode n.toInt) = some n.toInt) ∧
    ((encode Int64.minValue.toInt).length = 9 ∧
      ∀ limit, decode? limit (encode Int64.minValue.toInt) = none) ∧
    (∀ (b : Bytes) (n : Int), decode? maxWidth b = some n →
      (encode n).length ≤ b.length ∧ (b.length = (encode n).length → b = encode n)) ∧
    (∀ b : Bytes, 1 ≤ b.length → b.length ≤ maxWidth →
      ∃ n, decode? maxWidth b = some n ∧ n.natAbs < 2 ^ (8 * b.length - 1) ∧
        (magnitude b).toInt64.toInt = n.natAbs ∧ (toInt64 b).toInt = n) ∧
    (∀ (setting : Setting) (t : Thread) (item : Bytes) (rest : Stack), t.main = item :: rest →
      (item.length ≤ Stack.numberWidth → ∃ n, decode? Stack.numberWidth item = some n ∧
        (toInt64 item + 1).toInt = n + 1 ∧
        (Exec.command setting .addOne).runFrom t =
          (.ok (), { t with main := encode (n + 1) :: rest })) ∧
      (Stack.numberWidth < item.length →
        (Exec.command setting .addOne).runFrom t =
          (.error (.tooWide item Stack.numberWidth), { t with main := rest }))) := by
  refine ⟨?_, ⟨length_encode_minValue, ?_⟩, ?_, ?_, ?_⟩
  · intro n hn
    exact decode?_encode (width_le_of_ne_minValue hn)
  · intro limit
    rw [Option.eq_none_iff_forall_ne_some]
    intro n hn
    have hlength := length_le_of_decode? (decode?_eq_some_iff.mp hn).2
    rw [length_encode_minValue] at hlength
    exact absurd hlength (by decide)
  · intro b n h
    exact ⟨length_encode_le h, eq_encode_of_length_eq h⟩
  · intro b hpos hlength
    obtain ⟨n, hn⟩ := exists_decode? hlength
    have hlt := natAbs_lt_signBit (List.length_pos_iff.mp hpos) hn
    rw [signBit_eq] at hlt
    exact ⟨n, hn, hlt, toInt_magnitude hn, toInt_toInt64_of_decode? hn⟩
  · intro setting t item rest hmain
    constructor
    · intro hlength
      have hroom : Stack.numberWidth ≤ maxWidth := by decide
      obtain ⟨n, hn⟩ := exists_decode? (Nat.le_trans hlength hroom)
      have hdecode := decode?_eq_some_iff.mpr ⟨hlength, hn⟩
      exact ⟨n, hdecode, toInt_toInt64_add_one hdecode, Exec.runFrom_addOne hmain hdecode⟩
    · intro hlong
      apply Exec.runFrom_addOne_wide hmain
      rw [Option.eq_none_iff_forall_ne_some]
      intro n hn
      have hlength := (decode?_eq_some_iff.mp hn).1
      omega

/-- Adding one to the largest number of four bytes makes one of five, which is not taken again. -/
theorem shortest_and_exact_edges :
    decode? maxWidth (encode (-1 : Int64).toInt) = some (-1) ∧
    ((encode 255).length ≤ 3 ∧ ([0xff, 0] : Bytes) = encode 255) ∧
    (toInt64 [0, 0, 0, 0, 0, 0, 0, 0x80]).toInt = 0 ∧
    (Exec.command {} .addOne).runFrom { main := [[0xff, 0xff, 0xff, 0x7f]] } =
      (.ok (), { main := [[0, 0, 0, 0x80, 0]] }) ∧
    (Exec.command {} .addOne).runFrom { main := [[0, 0, 0, 0x80, 0]] } =
      (.error (.tooWide [0, 0, 0, 0x80, 0] 4), {}) := by
  obtain ⟨hexact, -, hshortest, hword, hadd⟩ := shortest_and_exact
  refine ⟨hexact (-1) (by decide), ⟨(hshortest [0xff, 0, 0] 255 (by decide)).1,
    (hshortest [0xff, 0] 255 (by decide)).2 (by decide)⟩, ?_, ?_, ?_⟩
  · obtain ⟨n, hn, -, -, hvalue⟩ := hword [0, 0, 0, 0, 0, 0, 0, 0x80] (by decide) (by decide)
    have hzero : decode? maxWidth [0, 0, 0, 0, 0, 0, 0, 0x80] = some 0 := by decide
    rw [hvalue]
    exact Option.some.inj (hn.symm.trans hzero)
  · obtain ⟨n, hn, -, hrun⟩ :=
      (hadd {} { main := [[0xff, 0xff, 0xff, 0x7f]] } _ _ rfl).1 (by decide)
    have hlargest : decode? Stack.numberWidth [0xff, 0xff, 0xff, 0x7f] = some 0x7fffffff := by
      decide
    obtain rfl : n = 0x7fffffff := Option.some.inj (hn.symm.trans hlargest)
    rw [hrun]
    rfl
  · exact (hadd {} { main := [[0, 0, 0, 0x80, 0]] } _ _ rfl).2 (by decide)

end ScriptNumber

end Utxo
