/-!
# Byte strings

Byte strings are lists, so a law about them is an induction. Numbers are written at a fixed width
in either byte order.
-/

namespace Utxo

abbrev Bytes := List UInt8

abbrev FixedBytes (n : Nat) := { b : Bytes // b.length = n }

def FixedBytes.zero (n : Nat) : FixedBytes n := ⟨List.replicate n 0, List.length_replicate⟩

namespace Bytes

/-! ## Numbers -/

def toNatLE : Bytes → Nat
  | [] => 0
  | b :: rest => b.toNat + 256 * toNatLE rest

/-- The low `8 * width` bits of `n`, least significant byte first. -/
def ofNatLE : (width : Nat) → (n : Nat) → Bytes
  | 0, _ => []
  | width + 1, n => UInt8.ofNat n :: ofNatLE width (n / 256)

/-- How many numbers have room in `width` bytes. -/
def capacity : (width : Nat) → Nat
  | 0 => 1
  | width + 1 => 256 * capacity width

def toNatBE (b : Bytes) : Nat := toNatLE b.reverse

def ofNatBE (width n : Nat) : Bytes := (ofNatLE width n).reverse

def ofUInt16 (v : UInt16) : Bytes := ofNatLE 2 v.toNat

def ofUInt32 (v : UInt32) : Bytes := ofNatLE 4 v.toNat

def ofUInt64 (v : UInt64) : Bytes := ofNatLE 8 v.toNat

@[simp] theorem length_ofNatLE (width n : Nat) : (ofNatLE width n).length = width := by
  induction width generalizing n with
  | zero => rfl
  | succ width ih => simp [ofNatLE, ih]

@[simp] theorem length_ofNatBE (width n : Nat) : (ofNatBE width n).length = width := by
  simp [ofNatBE]

@[simp] theorem length_ofUInt32 (v : UInt32) : (ofUInt32 v).length = 4 := length_ofNatLE 4 v.toNat

@[simp] theorem length_ofUInt64 (v : UInt64) : (ofUInt64 v).length = 8 := length_ofNatLE 8 v.toNat

theorem toNatLE_ofNatLE (width n : Nat) : toNatLE (ofNatLE width n) = n % capacity width := by
  induction width generalizing n with
  | zero => simp [ofNatLE, toNatLE, capacity, Nat.mod_one]
  | succ width ih =>
    rw [ofNatLE, toNatLE, ih, UInt8.toNat_ofNat', capacity]
    exact Nat.mod_mul.symm

theorem ofNatLE_toNatLE (b : Bytes) : ofNatLE b.length (toNatLE b) = b := by
  induction b with
  | nil => rfl
  | cons x rest ih =>
    have hx := x.toNat_lt
    have hdiv : (x.toNat + 256 * toNatLE rest) / 256 = toNatLE rest := by omega
    rw [List.length_cons, toNatLE, ofNatLE, hdiv, ih]
    congr 1
    apply UInt8.toNat_inj.mp
    rw [UInt8.toNat_ofNat']
    omega

theorem toNatLE_lt (b : Bytes) : toNatLE b < capacity b.length := by
  induction b with
  | nil => simp [toNatLE, capacity]
  | cons x rest ih =>
    have hx := x.toNat_lt
    rw [toNatLE, List.length_cons, capacity]
    omega

theorem toNatBE_lt (b : Bytes) : toNatBE b < capacity b.length := by
  simpa [toNatBE] using toNatLE_lt b.reverse

theorem ofNatBE_toNatBE (b : Bytes) : ofNatBE b.length (toNatBE b) = b := by
  have h := ofNatLE_toNatLE b.reverse
  rw [List.length_reverse] at h
  rw [ofNatBE, toNatBE, h, List.reverse_reverse]

/-! ## Pieces -/

/-- Consecutive pieces of `n` items; the last one may be shorter. -/
def chunks {α : Type} (n : Nat) (items : List α) : List (List α) :=
  match n, items with
  | 0, _ => []
  | _, [] => []
  | n + 1, x :: rest => (x :: rest.take n) :: chunks (n + 1) (rest.drop n)
termination_by items.length
decreasing_by simp only [List.length_drop, List.length_cons]; omega

end Bytes

end Utxo
