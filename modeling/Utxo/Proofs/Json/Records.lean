import Utxo.Json
import Utxo.Proofs.Text.Hex

/-!
# Values are read back

A field is found in the record that was written with it, and the value in it is read as what was
written.
-/

namespace Utxo.Json

variable {α : Type} {names : List String} {fields : List (String × Json)} {read : Json → Option α}

/-! ## Values -/

theorem natBelow?_nat {bound n : Nat} (h : n < bound) : (nat n).natBelow? bound = some n := by
  show (if n < bound then some n else none) = some n
  rw [if_pos h]

@[simp] theorem uint32?_nat (v : UInt32) : (nat v.toNat).uint32? = some v := by
  rw [uint32?, natBelow?_nat v.toNat_lt, Option.map_some, UInt32.ofNat_toNat]

@[simp] theorem uint64?_nat (v : UInt64) : (nat v.toNat).uint64? = some v := by
  rw [uint64?, natBelow?_nat v.toNat_lt, Option.map_some, UInt64.ofNat_toNat]

@[simp] theorem hex?_hex (b : Bytes) : (hex b).hex? = some b := by
  show (Hex.decode (Hex.encode b)).toOption = some b
  rw [Hex.decode_encode]
  rfl

theorem list?_list {write : α → Json} {items : List α}
    (h : ∀ item ∈ items, read (write item) = some item) :
    (list write items).list? read = some items := by
  show (items.map write).mapM read = some items
  induction items with
  | nil => rfl
  | cons item rest ih =>
    rw [List.forall_mem_cons] at h
    rw [List.map_cons, List.mapM_cons, h.1, ih h.2]
    rfl

/-! ## Records -/

/-- A record that has its fields once each, and no others, is read as these fields. -/
theorem fields?_record (hnodup : (fields.map Prod.fst).Nodup)
    (hnames : ∀ field ∈ fields, field.1 ∈ names) : (record fields).fields? names = some fields := by
  show declared names (fields.map fun field => (some field.1, field.2)) = some fields
  induction fields with
  | nil => rfl
  | cons field rest ih =>
    rw [List.map_cons, List.nodup_cons] at hnodup
    rw [List.forall_mem_cons] at hnames
    have hfresh : rest.lookup field.1 = none := by
      rw [List.lookup_eq_none_iff]
      intro other hother
      rw [bne_iff_ne]
      exact fun hsame => hnodup.1 (hsame ▸ List.mem_map_of_mem hother)
    rw [List.map_cons, declared, ih hnodup.2 hnames.2]
    show (if field.1 ∈ names then _ else _) = _
    rw [if_pos hnames.1, hfresh]
    rfl

end Utxo.Json
