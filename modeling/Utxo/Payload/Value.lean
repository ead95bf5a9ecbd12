import Utxo.Binary64
import Utxo.Schema.Code
import Utxo.Text.Utf8

/-!
# Values of fields

Fields keep the order in which their names first came up.
-/

namespace Utxo

inductive FieldValue where
  | bool (value : Bool)
  | int (value : Int64)
  | uint (value : UInt64)
  | float (value : Binary64)
  | text (value : String)
  | bytes (value : Bytes)
  | object (fields : List (String × FieldValue))
  | array (items : List FieldValue)
  deriving Inhabited

/-- Values with names, no name twice. -/
abbrev Fields := List (String × FieldValue)

namespace FieldValue

/-- Bytes are read as text. -/
def text? : FieldValue → Option String
  | text s => some s
  | bytes b => some (Utf8.decode b)
  | _ => none

/-- Text is written as bytes. -/
def bytes? : FieldValue → Option Bytes
  | bytes b => some b
  | text s => some (Utf8.encode s)
  | _ => none

/-- A number that is not negative. -/
def nat? : FieldValue → Option Nat
  | uint n => some n.toNat
  | int n => if 0 ≤ n.toInt then some n.toInt.toNat else none
  | _ => none

/-- A number or a text as the code of a payload. -/
def code? : FieldValue → Option PayloadCode
  | uint n => some (.ofNat n.toNat)
  | int n => some (.ofInt n.toInt)
  | value => value.text?.map PayloadCode.mk

def object? : FieldValue → Option Fields
  | object fields => some fields
  | _ => none

end FieldValue

namespace Fields

def get? (fields : Fields) (name : String) : Option FieldValue := fields.lookup name

/-- Gives a field a value, in the place of an earlier one or else at the end. -/
def insert : (fields : Fields) → (name : String) → FieldValue → Fields
  | [], name, value => [(name, value)]
  | (n, v) :: rest, name, value =>
    if n = name then (n, value) :: rest else (n, v) :: insert rest name value

/-- A field has the value it was given last; the others keep theirs. -/
theorem get?_insert (fields : Fields) (name other : String) (value : FieldValue) :
    get? (insert fields name value) other =
      if other = name then some value else get? fields other := by
  unfold get?
  have hne : ∀ {n : String}, other ≠ n → (other == n) = false := beq_false_of_ne
  induction fields with
  | nil =>
    by_cases h : other = name
    · simp [insert, h]
    · simp only [insert, List.lookup_cons, List.lookup_nil, hne h, if_neg h]
  | cons entry rest ih =>
    obtain ⟨n, v⟩ := entry
    rw [insert]
    split
    · rename_i hn
      subst hn
      by_cases h : other = n
      · simp [h]
      · simp only [List.lookup_cons, hne h, if_neg h]
    · rename_i hn
      by_cases h : other = n
      · subst h
        simp [hn]
      · simp only [List.lookup_cons, hne h, ih]

/-- A new name comes last, and a name that is there stays where it is. -/
theorem names_insert (fields : Fields) (name : String) (value : FieldValue) :
    (insert fields name value).map Prod.fst =
      fields.map Prod.fst ++ if name ∈ fields.map Prod.fst then [] else [name] := by
  induction fields with
  | nil => rfl
  | cons entry rest ih =>
    obtain ⟨n, v⟩ := entry
    rw [insert]
    split
    · simp_all
    · rename_i hn
      have hn' : ¬name = n := fun h => hn h.symm
      simp only [List.map_cons, ih, List.mem_cons, hn', false_or, List.cons_append]

/-- Puts items behind those that the field has if it is an array; any other value gives way. -/
def extend (fields : Fields) (name : String) (items : List FieldValue) : Fields :=
  match get? fields name with
  | some (.array before) => insert fields name (.array (before ++ items))
  | _ => insert fields name (.array items)

end Fields

end Utxo
