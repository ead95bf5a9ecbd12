import Utxo.Proofs.Payload.Merging
import Utxo.Proofs.Payload.RoundTrip

/-!
# Items that stand together

The numbers of an array may be cut into runs in any way, and each run may stand together behind one
key, or behind a key of its own if it is a single number. What is read is the same.
-/

namespace Utxo

open WireReader

/-! ## Runs of items -/

/-- A field with some items of an array, each of them a value and the bytes it is written as: any
number of items together, or a single one. -/
inductive Wire.IsRun (number : Nat) (packing : WireType) :
    List (WireValue × Bytes) → Bytes → Prop
  | together {key value : Bytes} {items : List (WireValue × Bytes)} :
    WireKey.Spells key ⟨number, .delimited⟩ →
    WireValue.Spells value (.delimited (items.flatMap Prod.snd)) →
    IsRun number packing items (key ++ value)
  | alone {key : Bytes} {item : WireValue × Bytes} :
    WireKey.Spells key ⟨number, packing⟩ → IsRun number packing [item] (key ++ item.2)

namespace RecordDecoder

variable {nested : RecordDecoder} {schema : Schema} {type : RecordType} {number : Nat}
  {field : FieldDecl} {name : String} {packing : WireType} {fields : Fields} {b rest : Bytes}
  {items : List (WireValue × Bytes)}

theorem items_single {w : WireValue} (hpacking : (Scalar.ofName name).packing? = some packing)
    (hw : w.wireType = packing) :
    nested.items field.name (.simple name) w = .ok [(Scalar.ofName name).value w] := by
  cases w with
  | delimited b =>
    rw [← hw] at hpacking
    exact absurd hpacking (Scalar.packing?_ne_delimited _)
  | _ => rfl

theorem update_run (htype : FieldType.ofName schema field.type = .array (.simple name))
    {v : WireValue} {found : List FieldValue}
    (h : nested.items field.name (.simple name) v = .ok found) :
    nested.update schema fields field v = .ok (fields.extend field.name found) := by
  rw [update_array htype, h]
  rfl

theorem readOn_run (hfield : type.numbered? number = some field)
    (htype : FieldType.ofName schema field.type = .array (.simple name))
    (hpacking : (Scalar.ofName name).packing? = some packing)
    (hitems : ∀ item ∈ items, item.1.wireType = packing ∧ item.1.Spells item.2)
    (hrun : Wire.IsRun number packing items b) :
    nested.readOn schema type fields (b ++ rest) =
      nested.readOn schema type
        (fields.extend field.name (items.map fun item => (Scalar.ofName name).value item.1))
        rest := by
  cases hrun with
  | together hkey hvalue =>
    have hfound : nested.items field.name (.simple name) (.delimited (items.flatMap Prod.snd)) =
        .ok (items.map fun item => (Scalar.ofName name).value item.1) := by
      have hscalar : (FieldType.simple name).scalar.packing? = some packing := hpacking
      simp only [RecordDecoder.items, hscalar]
      exact packedItems_spells field.name _ hitems
    exact readOn_spells (w := .delimited _) hfield hkey hvalue (update_run htype hfound)
  | @alone key item hkey =>
    obtain ⟨hw, hspells⟩ := hitems item List.mem_cons_self
    have hfound : nested.items field.name (.simple name) item.1 =
        .ok [(Scalar.ofName name).value item.1] := items_single hpacking hw
    rw [← hw] at hkey
    exact readOn_spells hfield hkey hspells (update_run htype hfound)

/-- However many runs there are, they bring one item after the other. -/
theorem readOn_runs (hfield : type.numbered? number = some field)
    (htype : FieldType.ofName schema field.type = .array (.simple name))
    (hpacking : (Scalar.ofName name).packing? = some packing)
    {runs : List (List (WireValue × Bytes) × Bytes)}
    (hitems : ∀ item ∈ runs.flatMap Prod.fst, item.1.wireType = packing ∧ item.1.Spells item.2)
    (hruns : ∀ run ∈ runs, Wire.IsRun number packing run.1 run.2) (seen : List FieldValue) :
    nested.readOn schema type (fields.extend field.name seen) (runs.flatMap Prod.snd ++ rest) =
      nested.readOn schema type
        (fields.extend field.name
          (seen ++ (runs.flatMap Prod.fst).map fun item => (Scalar.ofName name).value item.1))
        rest := by
  induction runs generalizing seen with
  | nil => simp
  | cons run runs ih =>
    obtain ⟨hrun, hruns⟩ := List.forall_mem_cons.mp hruns
    rw [List.flatMap_cons, List.forall_mem_append] at hitems
    rw [List.flatMap_cons, List.append_assoc, readOn_run hfield htype hpacking hitems.1 hrun,
      Fields.extend_extend, ih hitems.2 hruns, List.append_assoc, List.flatMap_cons,
      List.map_append]

end RecordDecoder

/-- However the numbers of an array are cut into runs, together or alone, with or without empty
runs between them, they are read as the same array. -/
theorem PayloadDecoder.wire_runs {limit : Nat} {schema : Schema} {type : RecordType}
    {number : Nat} {field : FieldDecl} {name : String}
    (hfield : type.numbered? number = some field)
    (htype : FieldType.ofName schema field.type = .array (.simple name))
    (hname : Scalar.IsNumeric name) :
    ∃ packing, (Scalar.ofName name).packing? = some packing ∧
      ∀ (items : List (WireValue × Bytes)) (runs : List (List (WireValue × Bytes) × Bytes)),
        items ≠ [] → (∀ item ∈ items, item.1.wireType = packing ∧ item.1.Spells item.2) →
        runs.flatMap Prod.fst = items →
        (∀ run ∈ runs, Wire.IsRun number packing run.1 run.2) →
        wire limit schema type (runs.flatMap Prod.snd) =
          .ok [(field.name, .array (items.map fun item => (Scalar.ofName name).value item.1))] := by
  obtain ⟨packing, hpacking⟩ := Scalar.exists_packing hname
  refine ⟨packing, hpacking, ?_⟩
  rintro _ runs hne hitems rfl hruns
  cases runs with
  | nil => exact absurd rfl hne
  | cons run runs =>
    obtain ⟨hrun, hruns⟩ := List.forall_mem_cons.mp hruns
    rw [List.flatMap_cons] at hitems ⊢
    rw [List.forall_mem_append] at hitems
    show (RecordDecoder.within schema limit limit).readOn schema type [] _ = _
    -- The first run makes the array that the others add to.
    rw [RecordDecoder.readOn_run hfield htype hpacking hitems.1 hrun,
      ← List.append_nil (runs.flatMap Prod.snd),
      RecordDecoder.readOn_runs hfield htype hpacking hitems.2 hruns, ← List.map_append]
    exact foldToEnd_nil

/-- Two numbers together, an empty run, and a number alone in more bytes than it needs. -/
theorem PayloadDecoder.wire_runs_codes :
    let entity : RecordType :=
      { name := "Entity"
        fields := [{ name := "Name", type := "varchar" }, { name := "Codes", type := "uint32[]" }] }
    wire 1 {} entity [0x12, 2, 5, 6, 0x12, 0, 0x10, 0x87, 0] =
      .ok [("Codes", .array [.uint 5, .uint 6, .uint 7])] := by
  intro entity
  have hfield : entity.numbered? 2 = some { name := "Codes", type := "uint32[]" } := rfl
  have htype : FieldType.ofName {} "uint32[]" = .array (.simple "uint32") := by decide +kernel
  obtain ⟨packing, hpacking, hruns⟩ := @wire_runs 1 {} entity 2 _ "uint32" hfield htype (by decide)
  obtain rfl : packing = .varint := by
    have hvarint : (Scalar.ofName "uint32").packing? = some .varint := by decide
    exact Option.some.inj (hpacking.symm.trans hvarint)
  have hwide : Varint.Spells [0x87, 0] 7 :=
    ⟨.more (by decide) (.last (by decide)), by decide, by decide⟩
  have hkey : WireKey.Spells [0x12] ⟨2, .delimited⟩ :=
    ⟨Varint.spells_byte (by decide), by decide, by decide⟩
  have hkey' : WireKey.Spells [0x10] ⟨2, .varint⟩ :=
    ⟨Varint.spells_byte (by decide), by decide, by decide⟩
  let five : WireValue × Bytes := (.varint 5, [5])
  let six : WireValue × Bytes := (.varint 6, [6])
  let seven : WireValue × Bytes := (.varint 7, [0x87, 0])
  have hread := hruns [five, six, seven]
    [([five, six], [0x12] ++ [2, 5, 6]), ([], [0x12] ++ [0]), ([seven], [0x10] ++ [0x87, 0])]
    nofun ?_ rfl ?_
  · have hvalues : ([five, six, seven].map fun item => (Scalar.ofName "uint32").value item.1) =
        [.uint 5, .uint 6, .uint 7] := by rfl
    rw [hvalues] at hread
    exact hread
  · simp only [List.forall_mem_cons]
    exact ⟨⟨rfl, .varint (Varint.spells_byte (by decide))⟩,
      ⟨rfl, .varint (Varint.spells_byte (by decide))⟩, ⟨rfl, .varint hwide⟩, nofun⟩
  · simp only [List.forall_mem_cons]
    have htwo : WireValue.Spells [2, 5, 6] (.delimited [5, 6]) :=
      @WireValue.Spells.delimited [2] [5, 6] (Varint.spells_byte (by decide))
    have hnone : WireValue.Spells [0] (.delimited []) :=
      @WireValue.Spells.delimited [0] [] (Varint.spells_byte (by decide))
    exact ⟨.together hkey htwo, .together hkey hnone, .alone hkey', nofun⟩

end Utxo
