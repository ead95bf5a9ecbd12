import Mathlib.Logic.Basic
import Utxo.Proofs.Interpreter.Commands
import Utxo.Proofs.Script.Boundaries

/-!
# Pushes

An operation that pushes something is read back from the bytes that it is written as, in whatever
form it tells the length of its data; so is an opcode that announces no data.
-/

namespace Utxo

open Reader

namespace Operation

/-! ## Reading what was written -/

theorem readData_of_takes {form : LengthForm} {n : Nat} {fits : form.Fits n} {data : Bytes}
    (hn : data.length = n) {c c' : Cursor} (h : Takes c data c') :
    (readData form n fits).runFrom c = (.ok (push form data (hn ▸ fits)), c') := by
  rw [readData, Stateful.runFrom_bind_of_ok (fixed_of_takes hn h), Stateful.runFrom_pure]

/-- A push is read back in the form in which it was written. -/
theorem finds_push (form : LengthForm) (data : Bytes) (fits : form.Fits data.length) :
    read.Finds (push form data fits).encode (push form data fits) := by
  intro c c' h
  obtain ⟨u, hop, h⟩ := Takes.split (a := [form.opcode data.length]) h
  obtain ⟨v, hlength, hdata⟩ := Takes.split h
  have hread := byte_of_takes hop
  cases form with
  | direct =>
    have hn : (LengthForm.direct.opcode data.length).toNat = data.length :=
      UInt8.toNat_ofNat_of_lt' (Nat.lt_of_le_of_lt fits.2 (by decide))
    rw [takes_nil_iff.mp hlength] at hdata
    rw [read, Stateful.runFrom_bind_of_ok hread, dif_pos (by rwa [hn]),
      readData_of_takes hn.symm hdata]
  | one =>
    have hn : data.length < UInt8.size := fits
    have hone : Takes u [UInt8.ofNat data.length] v := hlength
    calc read.runFrom c
      _ = (do let n ← byte; readData .one n.toNat n.toNat_lt : Reader _ _).runFrom u :=
        Stateful.runFrom_bind_of_ok hread
      _ = _ := Stateful.runFrom_bind_of_ok (byte_of_takes hone)
      _ = _ := readData_of_takes (UInt8.toNat_ofNat_of_lt' hn).symm hdata
  | two =>
    have hn : data.length < UInt16.size := fits
    calc read.runFrom c
      _ = (do let n ← u16BE; readData .two n.toNat n.toNat_lt : Reader _ _).runFrom u :=
        Stateful.runFrom_bind_of_ok hread
      _ = _ := Stateful.runFrom_bind_of_ok (u16BE_of_takes hn hlength)
      _ = _ := readData_of_takes (UInt16.toNat_ofNat_of_lt' hn).symm hdata
  | four =>
    have hn : data.length < UInt32.size := fits
    calc read.runFrom c
      _ = (do let n ← u32BE; readData .four n.toNat n.toNat_lt : Reader _ _).runFrom u :=
        Stateful.runFrom_bind_of_ok hread
      _ = _ := Stateful.runFrom_bind_of_ok (u32BE_of_takes hn hlength)
      _ = _ := readData_of_takes (UInt32.toNat_ofNat_of_lt' hn).symm hdata

/-- Behind such an opcode no data are announced. -/
def StandsAlone (op : Opcode) : Prop :=
  ¬LengthForm.direct.Fits op.toNat ∧ op ≠ Opcode.pushData1 ∧ op ≠ Opcode.pushData2 ∧
    op ≠ Opcode.pushData4

instance (op : Opcode) : Decidable (StandsAlone op) := inferInstanceAs (Decidable (_ ∧ _))

theorem finds_code {op : Opcode} (h : StandsAlone op) : read.Finds [op] (code op) := by
  intro c c' htakes
  obtain ⟨hdirect, hone, htwo, hfour⟩ := h
  rw [read, Stateful.runFrom_bind_of_ok (byte_of_takes htakes), dif_neg hdirect, if_neg hone,
    if_neg htwo, if_neg hfour, Stateful.runFrom_pure]

theorem readData_ne_code {form : LengthForm} {n : Nat} {fits : form.Fits n} {c c' : Cursor}
    {op : Opcode} : (readData form n fits).runFrom c ≠ (.ok (code op), c') := by
  intro h
  obtain ⟨data, v, -, h⟩ := Stateful.runFrom_bind_ok.mp h
  cases h

theorem standsAlone_of_read {op : Opcode} {c c' : Cursor}
    (h : read.runFrom c = (.ok (code op), c')) : StandsAlone op := by
  obtain ⟨first, u, -, h⟩ := Stateful.runFrom_bind_ok.mp h
  split at h
  · exact absurd h readData_ne_code
  split at h
  · obtain ⟨n, v, -, h⟩ := Stateful.runFrom_bind_ok.mp h
    exact absurd h readData_ne_code
  split at h
  · obtain ⟨n, v, -, h⟩ := Stateful.runFrom_bind_ok.mp h
    exact absurd h readData_ne_code
  split at h
  · obtain ⟨n, v, -, h⟩ := Stateful.runFrom_bind_ok.mp h
    exact absurd h readData_ne_code
  · rename_i hdirect hone htwo hfour
    cases h
    exact ⟨hdirect, hone, htwo, hfour⟩

/-! ## Operations that push something -/

theorem smallOperand?_isSome_iff (op : Opcode) :
    (smallOperand? op).isSome ↔ op.isPush ∧ StandsAlone op := by
  -- There are few enough opcodes to look at each of them.
  have hall : ∀ n < UInt8.size, (smallOperand? (UInt8.ofNat n)).isSome ↔
      Opcode.isPush (.ofNat n) ∧ StandsAlone (.ofNat n) := by decide +kernel
  simpa using hall op.toNat op.toNat_lt

theorem finds_of_operand {op : Operation} {data : Bytes} (h : op.operand? = some data) :
    read.Finds op.encode op := by
  cases op with
  | push form bytes fits => exact finds_push form bytes fits
  | code op =>
    have hsmall : (smallOperand? op).isSome := Option.isSome_of_eq_some h
    exact finds_code ((smallOperand?_isSome_iff op).mp hsmall).2

/-- What is read and named a push does push something, and nothing else does. -/
theorem isPush_iff_of_finds {op : Operation} (h : read.Finds op.encode op) :
    op.isPush ↔ ∃ data, op.operand? = some data := by
  cases op with
  | push form data fits => exact ⟨fun _ => ⟨data, rfl⟩, fun _ => LengthForm.isPush_opcode fits⟩
  | code op =>
    have hread := h (takes_start [op] [])
    rw [← Option.isSome_iff_exists]
    show op.isPush ↔ (smallOperand? op).isSome
    rw [smallOperand?_isSome_iff, and_iff_left (standsAlone_of_read hread)]

end Operation

/-- An operation that pushes something, and what it pushes. -/
structure Push where
  operation : Operation
  operand : Bytes
  pushes : operation.operand? = some operand

theorem Push.finds (p : Push) : Operation.read.Finds p.operation.encode p.operation :=
  Operation.finds_of_operand p.pushes

theorem Push.isPush (p : Push) : p.operation.isPush :=
  (Operation.isPush_iff_of_finds p.finds).mpr ⟨p.operand, p.pushes⟩

namespace Script

theorem hasFault_eq_false_iff {s : Script} : s.hasFault = false ↔ s.fault? = none :=
  Option.isSome_eq_false_iff.trans Option.isNone_iff_eq_none

/-- Operations that can be read stand in front of whatever comes behind them. -/
theorem decode_append {operations : List Operation}
    (h : ∀ op ∈ operations, Operation.read.Finds op.encode op) {more : Bytes}
    (hmore : (decode more).fault? = none) :
    decode (operations.flatMap Operation.encode ++ more) =
      ⟨operations ++ (decode more).operations, none⟩ := by
  rw [decode_behind h, hmore]

end Script

end Utxo
