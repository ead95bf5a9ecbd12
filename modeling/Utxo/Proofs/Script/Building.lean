import Utxo.Proofs.Script.Pushes

/-!
# Scripts that were built

An opcode that announces data can be built without the data, and is then no operation that could be
read. Scripts without such an opcode are read back as they were built. A push that was built takes
fewer bytes than any other one of the same data.
-/

namespace Utxo

open Reader

/-! ## Forms of a length -/

namespace LengthForm

variable {form : LengthForm} {n : Nat}

/-- How many bytes behind the opcode are for the length. -/
def width : LengthForm → Nat
  | direct => 0
  | one => 1
  | two => 2
  | four => 4

theorem length_lengthBytes (form : LengthForm) (n : Nat) :
    (form.lengthBytes n).length = form.width := by
  cases form with
  | direct => rfl
  | one => exact Bytes.length_ofNatBE 1 n
  | two => exact Bytes.length_ofNatBE 2 n
  | four => exact Bytes.length_ofNatBE 4 n

/-- Every other form for such a length is wider. -/
def IsNarrowest (form : LengthForm) (n : Nat) : Prop :=
  ∀ other : LengthForm, other.Fits n → other = form ∨ form.width < other.width

theorem width_pos_of_fits_zero (h : form.Fits 0) : 0 < form.width := by
  cases form with
  | direct => exact absurd h (by decide)
  | one => decide
  | two => decide
  | four => decide

theorem opcode_le (h : form.Fits n) : form.opcode n ≤ Opcode.pushData4 := by
  cases form with
  | direct =>
    have hle : n ≤ 75 := h.2
    have hn : (UInt8.ofNat n).toNat = n :=
      UInt8.toNat_ofNat_of_lt' (Nat.lt_of_le_of_lt hle (by decide))
    rw [opcode, UInt8.le_iff_toNat_le, hn]
    exact Nat.le_trans hle (by decide)
  | one => exact (by decide : Opcode.pushData1 ≤ Opcode.pushData4)
  | two => exact (by decide : Opcode.pushData2 ≤ Opcode.pushData4)
  | four => exact UInt8.le_refl _

end LengthForm

namespace Operation

variable {op other : Operation} {data : Bytes}

theorem length_encode_push (form : LengthForm) (data : Bytes) (fits : form.Fits data.length) :
    (push form data fits).encode.length = 1 + form.width + data.length := by
  simp only [encode, List.length_cons, List.length_append, LengthForm.length_lengthBytes]
  omega

/-! ## What can be built -/

/-- The ways to come by an operation. -/
inductive Built : Operation → Prop
  | push {data : Bytes} {op : Operation} :
      data.length < UInt32.size → push? data = some op → Built op
  | opcode (op : Opcode) : Built (code op)
  | reading {c c' : Cursor} {op : Operation} : read.runFrom c = (.ok op, c') → Built op

theorem built (op : Operation) : op.Built := by
  cases op with
  | code op => exact .opcode op
  | push form data fits =>
    have hread := finds_push form data fits (takes_start _ [])
    exact .reading hread

theorem standsAlone_iff (op : Opcode) : StandsAlone op ↔ ¬(1 ≤ op ∧ op ≤ 78) := by
  -- There are few enough opcodes to look at each of them.
  have hall : ∀ n < UInt8.size, StandsAlone (.ofNat n) ↔
      ¬((1 : Opcode) ≤ .ofNat n ∧ (.ofNat n : Opcode) ≤ 78) := by decide +kernel
  have hop := hall op.toNat op.toNat_lt
  rwa [UInt8.ofNat_toNat] at hop

/-- Only an opcode that announces data cannot be read back. -/
theorem finds_encode_iff :
    read.Finds op.encode op ↔ ∀ b : Opcode, 1 ≤ b → b ≤ 78 → op ≠ code b := by
  cases op with
  | push form data fits => exact iff_of_true (finds_push form data fits) fun _ _ _ => nofun
  | code op =>
    have halone : read.Finds (code op).encode (code op) ↔ StandsAlone op := by
      constructor
      · intro h
        exact standsAlone_of_read (h (takes_start [op] []))
      · exact finds_code
    rw [halone, standsAlone_iff]
    constructor
    · intro h b hfirst hlast heq
      cases heq
      exact h ⟨hfirst, hlast⟩
    · rintro h ⟨hfirst, hlast⟩
      exact h op hfirst hlast rfl

/-! ## Pushes -/

theorem push?_isSome_iff : (push? data).isSome ↔ data.length < UInt32.size := by
  unfold push?
  split
  · simp_all
  split
  · rename_i h
    have hle : data.length ≤ 75 := h.2
    exact iff_of_true rfl (Nat.lt_of_le_of_lt hle (by decide))
  split
  · rename_i h
    exact iff_of_true rfl (Nat.lt_trans h (by decide))
  split
  · rename_i h
    exact iff_of_true rfl (Nat.lt_trans h (by decide))
  split
  · rename_i h
    exact iff_of_true rfl h
  · rename_i h
    exact iff_of_false Bool.false_ne_true h

theorem push?_eq_some (h : push? data = some op) :
    data = [] ∧ op = code Opcode.push0 ∨
      ∃ form fits, op = push form data fits ∧ form.IsNarrowest data.length ∧ data ≠ [] := by
  unfold push? at h
  split at h
  · cases h
    exact .inl ⟨‹_›, rfl⟩
  split at h
  · cases h
    refine .inr ⟨.direct, ‹_›, rfl, fun other _ => ?_, ‹_›⟩
    cases other <;> decide
  split at h
  · cases h
    refine .inr ⟨.one, ‹_›, rfl, fun other hother => ?_, ‹_›⟩
    cases other with
    | direct => exact absurd hother ‹_›
    | _ => decide
  split at h
  · cases h
    refine .inr ⟨.two, ‹_›, rfl, fun other hother => ?_, ‹_›⟩
    cases other with
    | direct => exact absurd hother ‹_›
    | one => exact absurd hother ‹_›
    | _ => decide
  split at h
  · cases h
    refine .inr ⟨.four, ‹_›, rfl, fun other hother => ?_, ‹_›⟩
    cases other with
    | direct => exact absurd hother ‹_›
    | one => exact absurd hother ‹_›
    | two => exact absurd hother ‹_›
    | four => decide
  · cases h

/-- Up to the last opcode that announces data, a push has its data behind it or pushes nothing. -/
theorem eq_of_operand (h : other.operand? = some data) (hle : other.opcode ≤ 78) :
    (∃ form fits, other = push form data fits) ∨ data = [] ∧ other = code Opcode.push0 := by
  cases other with
  | push form bytes fits =>
    cases h
    exact .inl ⟨form, fits, rfl⟩
  | code op =>
    have hsmall : smallOperand? op = some data := h
    unfold smallOperand? at hsmall
    split at hsmall
    · rename_i hop
      cases hsmall
      exact .inr ⟨rfl, by rw [hop]⟩
    split at hsmall
    · rename_i hop
      rw [hop] at hle
      exact absurd hle (by decide)
    split at hsmall
    · rename_i hop
      have hpush1 := UInt8.le_trans hop.1 hle
      exact absurd hpush1 (by decide)
    · cases hsmall

theorem operand?_push? (h : push? data = some op) :
    op.operand? = some data ∧ op.opcode ≤ 78 := by
  rcases push?_eq_some h with ⟨rfl, rfl⟩ | ⟨form, fits, rfl, -, -⟩
  · exact ⟨rfl, by decide⟩
  · exact ⟨rfl, form.opcode_le fits⟩

theorem length_encode_push?_lt (h : push? data = some op) (hother : other.operand? = some data)
    (hle : other.opcode ≤ 78) (hne : other ≠ op) : op.encode.length < other.encode.length := by
  rcases push?_eq_some h with ⟨rfl, rfl⟩ | ⟨form, fits, rfl, hnarrowest, hdata⟩
  · rcases eq_of_operand hother hle with ⟨form, fits, rfl⟩ | ⟨-, rfl⟩
    · have hpos := LengthForm.width_pos_of_fits_zero fits
      rw [length_encode_push]
      show 1 < 1 + form.width + 0
      omega
    · exact absurd rfl hne
  · rcases eq_of_operand hother hle with ⟨form', fits', rfl⟩ | ⟨hnil, -⟩
    · rw [length_encode_push, length_encode_push]
      rcases hnarrowest form' fits' with rfl | hlt
      · exact absurd rfl hne
      · omega
    · exact absurd hnil hdata

/-- An opcode that announces data, without the data, is not pushed and is not read. -/
theorem ne_code_of_announces {b : Opcode} (hfirst : 1 ≤ b) (hlast : b ≤ 78) :
    (∀ data, push? data ≠ some (code b)) ∧ ∀ c c', read.runFrom c ≠ (.ok (code b), c') := by
  constructor
  · intro data h
    rcases push?_eq_some h with ⟨-, heq⟩ | ⟨_, _, heq, -⟩
    · cases heq
      exact absurd hfirst (by decide)
    · cases heq
  · intro c c' h
    exact (standsAlone_iff b).mp (standsAlone_of_read h) ⟨hfirst, hlast⟩

end Operation

open Operation

/-- Operations are built in three ways, and only one of them gives an opcode that announces data
without the data. A script is read back as it was built if it has no such opcode, and only then.
Pushes are built for data of every length that can be told, and each is the shortest of the pushes
of its data. -/
theorem Script.decode_ofOperations :
    (∀ op : Operation, op.Built) ∧
    (∀ b : Opcode, 1 ≤ b → b ≤ 78 →
      (∀ data, push? data ≠ some (code b)) ∧
        ∀ c c', Operation.read.runFrom c ≠ (.ok (code b), c')) ∧
    (∀ operations, decode (ofOperations operations).encode = ofOperations operations ↔
      ∀ b : Opcode, 1 ≤ b → b ≤ 78 → code b ∉ operations) ∧
    ∀ data,
      ((push? data).isSome ↔ data.length < UInt32.size) ∧
      ∀ op, push? data = some op → op.operand? = some data ∧ op.opcode ≤ 78 ∧
        ∀ other : Operation, other.operand? = some data → other.opcode ≤ 78 → other ≠ op →
          op.encode.length < other.encode.length := by
  refine ⟨built, fun b => ne_code_of_announces, fun operations => ?_,
    fun data => ⟨push?_isSome_iff, fun op h => ?_⟩⟩
  · have hencode : (ofOperations operations).encode = operations.flatMap Operation.encode :=
      List.append_nil _
    rw [hencode]
    constructor
    · intro h b hfirst hlast hmem
      have hread := finds_of_mem_decode (b := operations.flatMap Operation.encode)
      rw [h] at hread
      exact finds_encode_iff.mp (hread _ hmem) b hfirst hlast rfl
    · intro h
      refine decode_of_finds fun op hop => finds_encode_iff.mpr fun b hfirst hlast heq => ?_
      exact h b hfirst hlast (heq ▸ hop)
  · obtain ⟨hoperand, hopcode⟩ := operand?_push? h
    exact ⟨hoperand, hopcode, fun other => length_encode_push?_lt h⟩

/-- Two opcodes behind one that announces two bytes are its data when they are read. -/
example : Script.decode (Script.ofOperations [.code 0x02, .code 0x51, .code 0x52]).encode =
    ⟨[.push .direct [0x51, 0x52] (by decide)], none⟩ := by decide +kernel

end Utxo
