import Utxo.Payload.Decoder
import Utxo.Proofs.Payload.Names
import Utxo.Proofs.Wire.Reading

/-!
# Payloads as they are written

The plain encoding of the fields of a record: every value stands behind the number of its field,
whatever the value is. Truth values and integers in an array stand together behind one key; other
items have a key each. What a simple type is for is told by its name.
-/

namespace Utxo

namespace RecordType

/-- The number of a field and its declaration, by name. -/
def position? (type : RecordType) (name : String) : Option (Nat × FieldDecl) :=
  (type.fields.zipIdx.find? (·.1.name == name)).map fun (decl, i) => (i + 1, decl)

/-- Every field has a number that fits into a key, and a name of its own. -/
structure WellFormed (type : RecordType) : Prop where
  length_lt : type.fields.length < WireKey.numberBound
  nodup : (type.fields.map (·.name)).Nodup

instance (type : RecordType) : Decidable type.WellFormed :=
  decidable_of_iff
    (type.fields.length < WireKey.numberBound ∧ (type.fields.map (·.name)).Nodup)
    ⟨fun ⟨length_lt, nodup⟩ => ⟨length_lt, nodup⟩, fun h => ⟨h.length_lt, h.nodup⟩⟩

end RecordType

/-- The types whose items stand together in an array: truth values and integers. -/
def FieldType.StandTogether : FieldType → Prop
  | simple name => Scalar.IsIntegral name
  | _ => False

instance : (item : FieldType) → Decidable item.StandTogether
  | .simple name => inferInstanceAs (Decidable (Scalar.IsIntegral name))
  | .array _ | .object _ => isFalse id

namespace FieldValue

/-- A number or a truth value as a number without a sign. -/
def wireNumber : FieldValue → UInt64
  | bool v => if v then 1 else 0
  | int v => v.toUInt64
  | uint v => v
  | _ => 0

mutual

/-- A field with its number and its value. -/
def encode (schema : Schema) (number : Nat) : FieldType → FieldValue → Bytes
  | .array item, .array items =>
    if item.StandTogether then
      Wire.encodeDelimited number (items.flatMap fun v => Varint.encode v.wireNumber.toNat)
    else encodeEach schema number item items
  | .object type, .object fields =>
    Wire.encodeDelimited number (encodeFields schema type fields)
  | _, .text v => Wire.encodeDelimited number (Utf8.encode v)
  | _, .bytes v => Wire.encodeDelimited number v
  | _, v => Wire.encodeVarint number v.wireNumber.toNat

def encodeEach (schema : Schema) (number : Nat) (item : FieldType) : List FieldValue → Bytes
  | [] => []
  | v :: rest => v.encode schema number item ++ encodeEach schema number item rest

def encodeFields (schema : Schema) (type : RecordType) : List (String × FieldValue) → Bytes
  | [] => []
  | (name, v) :: rest =>
    (match type.position? name with
      | none => []
      | some (number, decl) => v.encode schema number (.ofName schema decl.type)) ++
      encodeFields schema type rest

end

end FieldValue

/-! ## What can be written -/

namespace FieldValue

/-- Whether a simple type of this name is for such a value. Floating point numbers have none. -/
def FitsName (name : String) : FieldValue → Prop
  | bool _ => name = "bool"
  | int _ => "int".toList.isPrefixOf name.toList
  | uint _ => "uint".toList.isPrefixOf name.toList
  | text _ => Scalar.IsText name
  | bytes _ => ¬Scalar.IsNumeric name ∧ ¬Scalar.IsText name
  | _ => False

instance (name : String) : (v : FieldValue) → Decidable (v.FitsName name)
  | bool _ => inferInstanceAs (Decidable (name = "bool"))
  | int _ => inferInstanceAs (Decidable ("int".toList.isPrefixOf name.toList))
  | uint _ => inferInstanceAs (Decidable ("uint".toList.isPrefixOf name.toList))
  | text _ => inferInstanceAs (Decidable (Scalar.IsText name))
  | bytes _ => inferInstanceAs (Decidable (¬Scalar.IsNumeric name ∧ ¬Scalar.IsText name))
  | float _ | array _ | object _ => isFalse id

variable (record : RecordType → Fields → Prop)

/-- Whether a value that stands alone has a type, with `record` for the records in it. -/
def FitsAlone : FieldType → FieldValue → Prop
  | .simple name, v => v.FitsName name
  | .object type, .object fields => record type fields
  | _, _ => False

def Fits : FieldType → FieldValue → Prop
  | .array item, .array items => items ≠ [] ∧ ∀ v ∈ items, v.FitsAlone record item
  | type, v => v.FitsAlone record type

variable [∀ type fields, Decidable (record type fields)]

instance : (type : FieldType) → (v : FieldValue) → Decidable (v.FitsAlone record type)
  | .simple name, v => inferInstanceAs (Decidable (v.FitsName name))
  | .object type, .object fields => inferInstanceAs (Decidable (record type fields))
  | .object _, .bool _ | .object _, .int _ | .object _, .uint _ | .object _, .float _
  | .object _, .text _ | .object _, .bytes _ | .object _, .array _ | .array _, _ => isFalse id

instance : (type : FieldType) → (v : FieldValue) → Decidable (v.Fits record type)
  | .array item, .array items =>
    have : Decidable (items ≠ []) := decidable_of_iff (items.isEmpty = false) (by simp)
    inferInstanceAs (Decidable (items ≠ [] ∧ ∀ v ∈ items, v.FitsAlone record item))
  | .simple name, v => inferInstanceAs (Decidable (v.FitsAlone record (.simple name)))
  | .object type, v => inferInstanceAs (Decidable (v.FitsAlone record (.object type)))
  | .array _, .bool _ | .array _, .int _ | .array _, .uint _ | .array _, .float _
  | .array _, .text _ | .array _, .bytes _ | .array _, .object _ => isFalse id

end FieldValue

namespace Fields

/-- Some of the fields of a type, in the order of their numbers. -/
structure Fit (schema : Schema) (record : RecordType → Fields → Prop) (type : RecordType)
    (fields : Fields) : Prop where
  sublist : (fields.map Prod.fst).Sublist (type.fields.map (·.name))
  fits : ∀ entry ∈ fields, ∀ decl ∈ type.fields, decl.name = entry.1 →
    entry.2.Fits record (.ofName schema decl.type)

instance (schema : Schema) (record : RecordType → Fields → Prop)
    [∀ type fields, Decidable (record type fields)] (type : RecordType) (fields : Fields) :
    Decidable (fields.Fit schema record type) :=
  decidable_of_iff
    ((fields.map Prod.fst).Sublist (type.fields.map (·.name)) ∧
      ∀ entry ∈ fields, ∀ decl ∈ type.fields, decl.name = entry.1 →
        entry.2.Fits record (.ofName schema decl.type))
    ⟨fun ⟨sublist, fits⟩ => ⟨sublist, fits⟩, fun h => ⟨h.sublist, h.fits⟩⟩

/-- Records that stand in each other up to `levels` deep. -/
def FitWithin (schema : Schema) : (levels : Nat) → RecordType → Fields → Prop
  | 0, _, _ => False
  | levels + 1, type, fields => fields.Fit schema (FitWithin schema levels) type

instance (schema : Schema) :
    (levels : Nat) → (type : RecordType) → (fields : Fields) →
      Decidable (fields.FitWithin schema levels type)
  | 0, _, _ => isFalse id
  | levels + 1, type, fields =>
    have := instDecidableFitWithin schema levels
    inferInstanceAs (Decidable (fields.Fit schema (FitWithin schema levels) type))

end Fields

/-- All types of records in the schema are well-formed. -/
def Schema.WellFormed (schema : Schema) : Prop :=
  ∀ type ∈ schema.payloads ++ schema.composites, type.WellFormed

instance (schema : Schema) : Decidable schema.WellFormed :=
  inferInstanceAs (Decidable (∀ type ∈ schema.payloads ++ schema.composites, type.WellFormed))

end Utxo
