import Mathlib.Data.List.Nodup
import Utxo.Proofs.Payload.Packing

/-!
# Values that conform to their types

The wire type of a value comes from the bytes and its declared type from the schema, and any two of
them may come together. Still every value that is read is one that its declared type allows, in
records however deep they stand in each other.
-/

namespace Utxo

open WireReader

/-! ## What a type allows -/

namespace FieldValue

/-- A value that is no array is allowed by a type, with `record` for the records in it. Numbers
without a sign and bytes are allowed everywhere. -/
def ConformsAlone (schema : Schema) (record : RecordType → Fields → Prop) (type : FieldType) :
    FieldValue → Prop
  | bool _ => type = .simple "bool"
  | int _ => ∃ name, type = .simple name ∧ "int".toList.isPrefixOf name.toList
  | float _ => ∃ name, type = .simple name ∧
      ("float".toList.isPrefixOf name.toList ∨ name = "double")
  | text _ => ∃ name, type = .simple name ∧ name ∈ ["varchar", "fixedchar", "text", "string"]
  | object fields => ∃ inner ∈ schema.composites, type = .object inner ∧ record inner fields
  | array _ => False
  | uint _ | bytes _ => True

/-- A field that is declared as an array has an array, and no other field has one. -/
def Conforms (schema : Schema) (record : RecordType → Fields → Prop) :
    FieldType → FieldValue → Prop
  | .array item, array items => ∀ v ∈ items, v.ConformsAlone schema record item
  | .array _, _ => False
  | type, v => v.ConformsAlone schema record type

end FieldValue

namespace Fields

/-- All fields are declared, no field comes twice, and each has a value that its declared type
allows. -/
structure Conform (schema : Schema) (record : RecordType → Fields → Prop) (type : RecordType)
    (fields : Fields) : Prop where
  nodup : (fields.map Prod.fst).Nodup
  declared : ∀ entry ∈ fields, ∃ decl ∈ type.fields, decl.name = entry.1 ∧
    entry.2.Conforms schema record (.ofName schema decl.type)

/-- Records with up to `depth` levels of records in them. -/
def ConformWithin (schema : Schema) : (depth : Nat) → RecordType → Fields → Prop
  | 0, type, fields => fields.Conform schema (fun _ _ => False) type
  | depth + 1, type, fields => fields.Conform schema (ConformWithin schema depth) type

end Fields

variable {schema : Schema} {record : RecordType → Fields → Prop} {type : RecordType}
  {fields fields' : Fields} {field : FieldDecl} {t item : FieldType} {v : FieldValue}
  {items : List FieldValue} {w : WireValue}

/-! ## Giving a field a value -/

namespace Fields

theorem Conform.insert (h : fields.Conform schema record type) (hfield : field ∈ type.fields)
    (hv : v.Conforms schema record (.ofName schema field.type)) :
    (fields.insert field.name v).Conform schema record type := by
  refine ⟨nodup_insert h.nodup, fun entry hentry => ?_⟩
  rcases mem_insert hentry with rfl | hold
  · exact ⟨field, hfield, rfl, hv⟩
  · exact h.declared entry hold

/-- No two fields have one name, so the items that are there are of the type of this field. -/
theorem Conform.itemsOf (h : fields.Conform schema record type)
    (hnames : (type.fields.map (·.name)).Nodup) (hfield : field ∈ type.fields)
    (hitem : FieldType.ofName schema field.type = .array item) :
    ∀ v ∈ fields.itemsOf field.name, v.ConformsAlone schema record item := by
  unfold Fields.itemsOf
  split
  · rename_i items hget
    obtain ⟨decl, hdecl, hname, hitems⟩ := h.declared _ (mem_of_get? hget)
    obtain rfl : decl = field := List.inj_on_of_nodup_map hnames hdecl hfield hname
    rw [hitem] at hitems
    exact hitems
  · nofun

theorem Conform.extend (h : fields.Conform schema record type)
    (hnames : (type.fields.map (·.name)).Nodup) (hfield : field ∈ type.fields)
    (hitem : FieldType.ofName schema field.type = .array item)
    (hitems : ∀ v ∈ items, v.ConformsAlone schema record item) :
    (fields.extend field.name items).Conform schema record type := by
  rw [extend_eq_insert]
  apply h.insert hfield
  rw [hitem]
  exact List.forall_mem_append.mpr ⟨h.itemsOf hnames hfield hitem, hitems⟩

end Fields

/-! ## Types -/

theorem Scalar.IsNamed.conformsAlone {s : Scalar} {name : String} (h : s.IsNamed name)
    (w : WireValue) : (s.value w).ConformsAlone schema record (.simple name) := by
  have hfloat64 (h : name = "float64") : "float".toList.isPrefixOf name.toList := by
    subst h
    decide
  unfold value
  split
  · exact congrArg FieldType.simple h
  · exact ⟨name, rfl, h⟩
  · exact ⟨name, rfl, h⟩
  · exact ⟨name, rfl, h⟩
  · exact ⟨name, rfl, .inl h.1⟩
  · exact ⟨name, rfl, .inl (hfloat64 h)⟩
  · exact ⟨name, rfl, .inl h.1⟩
  · exact ⟨name, rfl, .inl (hfloat64 h)⟩
  · exact ⟨name, rfl, .inr h⟩
  · exact ⟨name, rfl, h⟩
  -- What else there is on the wire is a number without a sign, or bytes.
  · trivial
  · trivial
  · trivial
  · trivial

theorem FieldType.exists_item (h : t.isArray = true) : ∃ item, t = .array item := by
  cases t with
  | array item => exact ⟨item, rfl⟩
  | _ => cases h

theorem FieldType.conformsAlone_value (t : FieldType) (w : WireValue) :
    (t.scalar.value w).ConformsAlone schema record t := by
  cases t with
  | simple name => exact (Scalar.isNamed_ofName name).conformsAlone w
  | array item => cases w <;> trivial
  | object type => cases w <;> trivial

/-! ## Values -/

namespace RecordDecoder

variable {nested : RecordDecoder}

/-- What the decoder gives for a record of the schema is a record as `record` says. -/
def Yields (nested : RecordDecoder) (schema : Schema) (record : RecordType → Fields → Prop) :
    Prop :=
  ∀ type ∈ schema.composites, ∀ b fields, nested type b = .ok fields → record type fields

theorem conformsAlone_of_value (hnested : nested.Yields schema record) (hknown : t.Known schema)
    (h : nested.value t w = .ok v) : v.ConformsAlone schema record t := by
  unfold value at h
  split at h
  · rename_i type b
    obtain ⟨fields, hfields, h⟩ := bind_ok.mp h
    cases h
    exact ⟨type, hknown, rfl, hnested type hknown b fields hfields⟩
  · cases h
    exact t.conformsAlone_value w

theorem conformsAlone_of_packedItems {field : String} {packing : WireType} {b : Bytes}
    (h : packedItems field item.scalar packing b = .ok items) :
    ∀ v ∈ items, v.ConformsAlone schema record item := by
  rw [packedItems, map_eq_pure_bind, bind_ok] at h
  obtain ⟨seen, hseen, h⟩ := h
  cases h
  have hall : ∀ v ∈ seen, v.ConformsAlone schema record item := by
    refine foldToEnd_invariant (P := fun seen => ∀ v ∈ seen, v.ConformsAlone schema record item)
      ?_ nofun hseen
    intro seen b seen' rest hall hstep
    obtain ⟨w, _, -, hstep⟩ := Stateful.runFrom_bind_ok.mp hstep
    cases hstep
    exact List.forall_mem_cons.mpr ⟨item.conformsAlone_value w, hall⟩
  exact fun v hv => hall v (List.mem_reverse.mp hv)

theorem conformsAlone_of_items (hnested : nested.Yields schema record)
    (hknown : item.Known schema) {field : String} (h : nested.items field item w = .ok items) :
    ∀ v ∈ items, v.ConformsAlone schema record item := by
  unfold RecordDecoder.items at h
  split at h
  · exact conformsAlone_of_packedItems h
  · obtain ⟨v, hv, h⟩ := bind_ok.mp h
    cases h
    exact List.forall_mem_singleton.mpr (conformsAlone_of_value hnested hknown hv)

theorem conforms_of_value (hnested : nested.Yields schema record) (hknown : t.Known schema)
    (hnot : t.isArray = false) (h : nested.value t w = .ok v) : v.Conforms schema record t := by
  have halone := conformsAlone_of_value hnested hknown h
  cases t with
  | array item => cases hnot
  | _ => exact halone

/-! ## Records -/

/-- What a field brings replaces what it has, or adds items to those that it has. -/
theorem conform_update (hnested : nested.Yields schema record)
    (hnames : (type.fields.map (·.name)).Nodup) (hfield : field ∈ type.fields)
    (hfields : fields.Conform schema record type)
    (h : nested.update schema fields field w = .ok fields') :
    fields'.Conform schema record type := by
  have hknown := FieldType.known_ofName schema field.type
  by_cases harray : (FieldType.ofName schema field.type).isArray = true
  · obtain ⟨item, hitem⟩ := FieldType.exists_item harray
    rw [update_array hitem, bind_ok] at h
    obtain ⟨items, hitems, h⟩ := h
    cases h
    rw [hitem] at hknown
    exact hfields.extend hnames hfield hitem (conformsAlone_of_items hnested hknown hitems)
  · have hnot := Bool.eq_false_iff.mpr harray
    rw [update_alone hnot, bind_ok] at h
    obtain ⟨v, hv, h⟩ := h
    cases h
    exact hfields.insert hfield (conforms_of_value hnested hknown hnot hv)

theorem conform_readField (hnested : nested.Yields schema record)
    (hnames : (type.fields.map (·.name)).Nodup) {b rest : Bytes}
    (hfields : fields.Conform schema record type)
    (h : (nested.readField schema type fields).runFrom b = (.ok fields', rest)) :
    fields'.Conform schema record type := by
  obtain ⟨key, _, -, h⟩ := Stateful.runFrom_bind_ok.mp h
  split at h
  · obtain ⟨_, _, -, h⟩ := Stateful.runFrom_bind_ok.mp h
    cases h
    exact hfields
  · rename_i field hnumber
    obtain ⟨w, _, -, h⟩ := Stateful.runFrom_bind_ok.mp h
    have hfield := RecordType.mem_of_numbered? hnumber
    exact conform_update hnested hnames hfield hfields (Prod.mk.inj h).1

theorem conform_around (hnested : nested.Yields schema record)
    (hnames : (type.fields.map (·.name)).Nodup) {b : Bytes}
    (h : nested.around schema type b = .ok fields) : fields.Conform schema record type := by
  have hnil : Fields.Conform schema record type [] := ⟨List.nodup_nil, nofun⟩
  refine foldToEnd_invariant ?_ hnil h
  intro fields b fields' rest hfields hread
  exact conform_readField hnested hnames hfields hread

/-- Each level down there is one level less for records in records. -/
theorem conformWithin_of_within (hschema : ∀ record ∈ schema.composites,
    (record.fields.map (·.name)).Nodup) (limit : Nat) {depth : Nat}
    (hnames : (type.fields.map (·.name)).Nodup) {b : Bytes}
    (h : within schema limit (depth + 1) type b = .ok fields) :
    fields.ConformWithin schema depth type := by
  induction depth generalizing type b fields with
  | zero =>
    refine conform_around ?_ hnames h
    intro inner _ b fields hinner
    cases hinner
  | succ depth ih =>
    refine conform_around ?_ hnames h
    intro inner hmem b fields hinner
    exact ih (hschema inner hmem) hinner

end RecordDecoder

/-- Whatever bytes a payload is read from, its fields conform to its type, and records stand in each
other no deeper than the limit. -/
theorem PayloadDecoder.wire_conforms {limit : Nat} {schema : Schema} {type : RecordType}
    {payload : Bytes} {fields : Fields}
    (hschema : ∀ record ∈ schema.payloads ++ schema.composites,
      (record.fields.map (·.name)).Nodup)
    (htype : type ∈ schema.payloads ++ schema.composites)
    (h : wire limit schema type payload = .ok fields) :
    fields.ConformWithin schema limit type :=
  RecordDecoder.conformWithin_of_within
    (fun record hrecord => hschema record (List.mem_append_right _ hrecord)) limit
    (hschema type htype) h

/-- Two names come as numbers, one of them in a record in the record. -/
theorem PayloadDecoder.wire_conforms_numbers :
    let entity : RecordType :=
      { name := "Entity"
        fields := [{ name := "Name", type := "varchar" }, { name := "Parent", type := "Entity" },
          { name := "Flags", type := "bool[]" }] }
    let schema : Schema := { composites := [entity] }
    let fields : Fields :=
      [("Name", .uint 5), ("Parent", .object [("Name", .uint 7)]), ("Flags", .array [.bool true])]
    wire 1 schema entity [0x08, 5, 0x12, 2, 0x08, 7, 0x18, 1] = .ok fields ∧
      fields.ConformWithin schema 1 entity := by
  intro entity schema fields
  have hvarchar : FieldType.ofName schema "varchar" = .simple "varchar" := by decide +kernel
  have hentity : FieldType.ofName schema "Entity" = .object entity := by decide +kernel
  have hflags : FieldType.ofName schema "bool[]" = .array (.simple "bool") := by decide +kernel
  have hname (nested : RecordDecoder) (b : UInt8) (hb : b < 0x80) (rest : Bytes) :
      nested.readOn schema entity [] ([0x08] ++ [b] ++ rest) =
        nested.readOn schema entity [("Name", .uint b.toUInt64)] rest := by
    have hkey : WireKey.Spells [0x08] ⟨1, .varint⟩ :=
      ⟨Varint.spells_byte (by decide), by decide, by decide⟩
    refine RecordDecoder.readOn_spells (w := .varint b.toUInt64) rfl hkey
      (.varint (Varint.spells_byte hb)) ?_
    simp only [RecordDecoder.update, hvarchar]
    rfl
  have hread : wire 1 schema entity [0x08, 5, 0x12, 2, 0x08, 7, 0x18, 1] = .ok fields := by
    let nested := RecordDecoder.within schema 1 1
    have hinner : nested entity [0x08, 7] = .ok [("Name", .uint 7)] :=
      (hname _ 7 (by decide) []).trans foldToEnd_nil
    have hparent : nested.readOn schema entity [("Name", .uint 5)]
        ([0x12] ++ [2, 0x08, 7] ++ [0x18, 1]) = nested.readOn schema entity
          [("Name", .uint 5), ("Parent", .object [("Name", .uint 7)])] [0x18, 1] := by
      have hkey : WireKey.Spells [0x12] ⟨2, .delimited⟩ :=
        ⟨Varint.spells_byte (by decide), by decide, by decide⟩
      refine RecordDecoder.readOn_spells (w := .delimited [0x08, 7]) rfl hkey
        (@WireValue.Spells.delimited [2] [0x08, 7] (Varint.spells_byte (by decide))) ?_
      simp only [RecordDecoder.update, hentity, RecordDecoder.value, hinner]
      rfl
    have hflag : nested.readOn schema entity
        [("Name", .uint 5), ("Parent", .object [("Name", .uint 7)])] ([0x18] ++ [1] ++ []) =
          nested.readOn schema entity fields [] := by
      have hkey : WireKey.Spells [0x18] ⟨3, .varint⟩ :=
        ⟨Varint.spells_byte (by decide), by decide, by decide⟩
      refine RecordDecoder.readOn_spells (w := .varint 1) rfl hkey
        (.varint (Varint.spells_byte (by decide))) ?_
      simp only [RecordDecoder.update, hflags]
      rfl
    exact (hname nested 5 (by decide) _).trans (hparent.trans (hflag.trans foldToEnd_nil))
  exact ⟨hread, wire_conforms (by decide) (List.mem_singleton_self _) hread⟩

end Utxo
