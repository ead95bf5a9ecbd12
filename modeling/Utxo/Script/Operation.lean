import Utxo.Bytes.Cursor
import Utxo.Json
import Utxo.Script.Number
import Utxo.Script.Opcode

/-!
# Operations of a script

An operation is a push, or an opcode with nothing behind it. A push may tell the length of its data
in a longer form than it needs; the operation remembers the form, so that writing it gives back the
bytes it was read from.
-/

namespace Utxo

/-- How a push tells the length of its data: by its opcode, or in one, two or four big-endian bytes
behind it. -/
inductive LengthForm where
  | direct
  | one
  | two
  | four
  deriving DecidableEq, Repr

namespace LengthForm

def Fits (form : LengthForm) (n : Nat) : Prop :=
  match form with
  | direct => 1 ≤ n ∧ n ≤ 75
  | one => n < UInt8.size
  | two => n < UInt16.size
  | four => n < UInt32.size

instance (form : LengthForm) (n : Nat) : Decidable (form.Fits n) :=
  match form with
  | direct => inferInstanceAs (Decidable (1 ≤ n ∧ n ≤ 75))
  | one => inferInstanceAs (Decidable (n < UInt8.size))
  | two => inferInstanceAs (Decidable (n < UInt16.size))
  | four => inferInstanceAs (Decidable (n < UInt32.size))

def opcode (form : LengthForm) (n : Nat) : Opcode :=
  match form with
  | direct => UInt8.ofNat n
  | one => Opcode.pushData1
  | two => Opcode.pushData2
  | four => Opcode.pushData4

/-- The length as it stands behind the opcode. -/
def lengthBytes (form : LengthForm) (n : Nat) : Bytes :=
  match form with
  | direct => []
  | one => Bytes.ofNatBE 1 n
  | two => Bytes.ofNatBE 2 n
  | four => Bytes.ofNatBE 4 n

end LengthForm

inductive Operation where
  | push (form : LengthForm) (data : Bytes) (fits : form.Fits data.length)
  | code (op : Opcode)
  deriving DecidableEq

namespace Operation

/-! ## Views -/

def opcode : Operation → Opcode
  | push form data _ => form.opcode data.length
  | code op => op

/-- What an opcode pushes that carries its value in itself. -/
def smallOperand? (op : Opcode) : Option Bytes :=
  if op = Opcode.push0 then some []
  else if op = Opcode.push1Negate then some [0x81]
  else if Opcode.push1 ≤ op ∧ op ≤ Opcode.push16 then some [op - 0x50]
  else none

/-- The bytes that an operation pushes. -/
def operand? : Operation → Option Bytes
  | push _ data _ => some data
  | code op => smallOperand? op

def encode : Operation → Bytes
  | push form data _ => form.opcode data.length :: (form.lengthBytes data.length ++ data)
  | code op => [op]

def name (op : Operation) : String := op.opcode.name

def isPush (op : Operation) : Bool := op.opcode.isPush

/-- The operation in words: the digits of data, the value of a small number, or a name. -/
def text : Operation → String
  | push _ data _ => Hex.encode data
  | code op =>
    match smallOperand? op with
    | none => op.name
    | some v => toString ((ScriptNumber.decode? 1 v).getD 0)

def toJson (op : Operation) : Json := .record [
  ("name", .text op.name),
  ("operand", .optional .hex op.operand?),
  ("raw", .hex op.encode)]

/-! ## Building -/

/-- A push in the shortest form, for data of less than 2³² bytes. -/
def push? (data : Bytes) : Option Operation :=
  if data = [] then some (code Opcode.push0)
  else if h : LengthForm.direct.Fits data.length then some (push .direct data h)
  else if h : LengthForm.one.Fits data.length then some (push .one data h)
  else if h : LengthForm.two.Fits data.length then some (push .two data h)
  else if h : LengthForm.four.Fits data.length then some (push .four data h)
  else none

/-! ## Reading -/

/-- The data of a push in a form that its opcode has announced. -/
def readData (form : LengthForm) (n : Nat) (fits : form.Fits n) : Reader Truncated Operation := do
  let data ← Reader.fixed n
  return push form data.val (by rw [data.property]; exact fits)

def read : Reader Truncated Operation := do
  let op ← Reader.byte
  if h : LengthForm.direct.Fits op.toNat then readData .direct op.toNat h
  else if op = Opcode.pushData1 then do
    let n ← Reader.byte
    readData .one n.toNat n.toNat_lt
  else if op = Opcode.pushData2 then do
    let n ← Reader.u16BE
    readData .two n.toNat n.toNat_lt
  else if op = Opcode.pushData4 then do
    let n ← Reader.u32BE
    readData .four n.toNat n.toNat_lt
  else return code op

theorem readData_ok {form : LengthForm} {n : Nat} {fits : form.Fits n} {c c' : Cursor}
    {op : Operation} (h : (readData form n fits).runFrom c = (.ok op, c')) :
    ∃ data : Bytes, data.length = n ∧ Reader.Takes c data c' ∧
      op.encode = form.opcode n :: (form.lengthBytes n ++ data) := by
  obtain ⟨b, u, hb, h⟩ := Stateful.runFrom_bind_ok.mp h
  cases h
  refine ⟨b.val, b.property, Reader.fixed_ok hb, ?_⟩
  rw [encode, b.property]

/-- Reading takes the very bytes that the operation is written as. -/
theorem read_ok {c c' : Cursor} {op : Operation} (h : read.runFrom c = (.ok op, c')) :
    Reader.Takes c op.encode c' := by
  obtain ⟨first, u, hfirst, h⟩ := Stateful.runFrom_bind_ok.mp h
  have hop := Reader.byte_ok hfirst
  split at h
  · obtain ⟨data, -, hdata, henc⟩ := readData_ok h
    rw [henc, show LengthForm.direct.opcode first.toNat = first from UInt8.ofNat_toNat]
    exact hop.trans hdata
  split at h
  · rename_i hcode
    obtain ⟨n, v, hn, h⟩ := Stateful.runFrom_bind_ok.mp h
    obtain ⟨data, -, hdata, henc⟩ := readData_ok h
    have hn' : Reader.Takes u (Bytes.ofNatBE 1 n.toNat) v := by
      simpa [Bytes.ofNatBE, Bytes.ofNatLE] using Reader.byte_ok hn
    rw [henc, show LengthForm.one.opcode n.toNat = first from hcode.symm]
    exact hop.trans (hn'.trans hdata)
  split at h
  · rename_i hcode
    obtain ⟨n, v, hn, h⟩ := Stateful.runFrom_bind_ok.mp h
    obtain ⟨data, -, hdata, henc⟩ := readData_ok h
    rw [henc, show LengthForm.two.opcode n.toNat = first from hcode.symm]
    exact hop.trans ((Reader.u16BE_ok hn).trans hdata)
  split at h
  · rename_i hcode
    obtain ⟨n, v, hn, h⟩ := Stateful.runFrom_bind_ok.mp h
    obtain ⟨data, -, hdata, henc⟩ := readData_ok h
    rw [henc, show LengthForm.four.opcode n.toNat = first from hcode.symm]
    exact hop.trans ((Reader.u32BE_ok hn).trans hdata)
  · cases h
    exact hop

theorem encode_length_pos (op : Operation) : 0 < op.encode.length := by
  cases op <;> simp [encode]

theorem length_lt_of_read {c c' : Cursor} {op : Operation} (h : read.runFrom c = (.ok op, c')) :
    c'.rest.length < c.rest.length := by
  have := encode_length_pos op
  rw [(read_ok h).1, List.length_append]
  omega

end Operation

end Utxo
