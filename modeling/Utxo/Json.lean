import Utxo.Binary64
import Utxo.Text.Hex

/-! # JSON values, and how parts are taken out of them -/

namespace Utxo

/-- A JSON value. Members keep their order and may repeat a name. A string is `none` when its
escapes leave half of a surrogate pair: such a literal has no text, and may only stand where
nothing looks at it. -/
inductive Json where
  | null
  | bool (value : Bool)
  | integer (value : Int)
  /-- A number that is not written as an integer, as it is written. -/
  | decimal (literal : String)
  | float (value : Binary64)
  | string (value : Option String)
  | array (items : List Json)
  | object (members : List (Option String × Json))
  deriving Inhabited

namespace Json

/-! ## Building -/

def text (s : String) : Json := .string (some s)

def nat (n : Nat) : Json := .integer n

/-- Bytes as lowercase digits. -/
def hex (b : Bytes) : Json := .text (Hex.encode b)

def record (members : List (String × Json)) : Json :=
  .object (members.map fun (name, value) => (some name, value))

def optional {α : Type} (write : α → Json) : Option α → Json
  | none => .null
  | some x => write x

def list {α : Type} (write : α → Json) (items : List α) : Json := .array (items.map write)

/-! ## Taking apart -/

def text? : Json → Option String
  | .string s => s
  | _ => none

/-- An integer from zero up to, but not including, `bound`. -/
def natBelow? (bound : Nat) : Json → Option Nat
  | .integer (.ofNat n) => if n < bound then some n else none
  | _ => none

def uint32? (j : Json) : Option UInt32 := (j.natBelow? UInt32.size).map UInt32.ofNat

def uint64? (j : Json) : Option UInt64 := (j.natBelow? UInt64.size).map UInt64.ofNat

def hex? (j : Json) : Option Bytes := do (Hex.decode (← j.text?)).toOption

def list? {α : Type} (read : Json → Option α) : Json → Option (List α)
  | .array items => items.mapM read
  | _ => none

/-- The members of an object that have one of the names. Other members are passed over; a name
without text, or one of the names twice, makes the object unreadable. -/
def declared (names : List String) :
    (members : List (Option String × Json)) → Option (List (String × Json))
  | [] => some []
  | (none, _) :: _ => none
  | (some name, value) :: rest => do
    let others ← declared names rest
    if name ∈ names then
      if (others.lookup name).isSome then none else return (name, value) :: others
    else return others

/-- The fields of a record, which is written as an object, or as an array of the fields in order
with the last ones left out at will. -/
def fields? (names : List String) : Json → Option (List (String × Json))
  | .object members => declared names members
  | .array items => if items.length ≤ names.length then some (names.zip items) else none
  | _ => none

/-- A field that has to be there. -/
def required {α : Type} (fields : List (String × Json)) (name : String)
    (read : Json → Option α) : Option α :=
  (fields.lookup name).bind read

/-- A field with a value of its own if it is left out. -/
def defaulted {α : Type} (fields : List (String × Json)) (name : String)
    (default : α) (read : Json → Option α) : Option α :=
  match fields.lookup name with
  | none => some default
  | some value => read value

/-- A field that may be left out or be null. -/
def nullable {α : Type} (fields : List (String × Json)) (name : String)
    (read : Json → Option α) : Option (Option α) :=
  match fields.lookup name with
  | none | some .null => some none
  | some value => (read value).map some

end Json

end Utxo
