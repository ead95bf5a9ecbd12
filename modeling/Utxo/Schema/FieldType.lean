import Utxo.Schema.Basic

/-! # Types of fields -/

namespace Utxo

inductive FieldType where
  | simple (name : String)
  | array (item : FieldType)
  | object (type : RecordType)
  deriving DecidableEq, Repr

namespace FieldType

/-- The type whose name is given from its last character on. A name that the schema does not have
among its types is simple. -/
def ofReversed (schema : Schema) : List Char → FieldType
  | ']' :: '[' :: item => array (ofReversed schema item)
  | other =>
    let name := String.ofList other.reverse
    match schema.composite? name with
    | some type => object type
    | none => simple name

def ofName (schema : Schema) (name : String) : FieldType := ofReversed schema name.toList.reverse

/-- The type of the field with a name. -/
def ofField? (schema : Schema) (type : RecordType) (field : String) : Option FieldType :=
  (type.field? field).map (ofName schema ·.type)

def simpleName? : FieldType → Option String
  | simple name => some name
  | _ => none

def isArray : FieldType → Bool
  | array _ => true
  | _ => false

end FieldType

end Utxo
