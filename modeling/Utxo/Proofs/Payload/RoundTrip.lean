import Utxo.Proofs.Bytes.Reading
import Utxo.Proofs.Payload.Encoding
import Utxo.Proofs.Text.Utf8

/-!
# Reading payloads back

What was written for the fields of a record is read as the same fields, however deep records stand
in each other.
-/

namespace Utxo

open WireReader

/-! ## Values on the wire -/

namespace WireValue

variable {w : WireValue}

def wireType : WireValue → WireType
  | varint _ => .varint
  | fixed64 _ => .fixed64
  | fixed32 _ => .fixed32
  | delimited _ => .delimited

def encode : WireValue → Bytes
  | varint n => Varint.encode n.toNat
  | fixed64 n => Bytes.ofUInt64 n
  | fixed32 n => Bytes.ofUInt32 n
  | delimited b => Varint.encode b.length ++ b

/-- One of the ways to write a value. -/
inductive Spells : Bytes → WireValue → Prop
  | varint {b : Bytes} {n : UInt64} : Varint.Spells b n.toNat → Spells b (varint n)
  | fixed64 (n : UInt64) : Spells (Bytes.ofUInt64 n) (fixed64 n)
  | fixed32 (n : UInt32) : Spells (Bytes.ofUInt32 n) (fixed32 n)
  | delimited {length b : Bytes} :
    Varint.Spells length b.length → Spells (length ++ b) (delimited b)

theorem Spells.reads {b : Bytes} (h : Spells b w) (field : String) :
    Reads (read field w.wireType) b w := by
  cases h with
  | @varint _ n hnumber =>
    have hread := hnumber.reads
    rw [UInt64.ofNat_toNat] at hread
    exact (hread.blame _).then (reads_pure _)
  | fixed64 n =>
    have htake : Reads (takeFor field 8) (Bytes.ofUInt64 n) (Bytes.ofUInt64 n) :=
      (reads_take (Bytes.length_ofUInt64 n)).blame _
    refine htake.then ?_
    rw [Bytes.ofUInt64, Bytes.toNatLE_ofNatLE_of_lt n.toNat_lt, UInt64.ofNat_toNat]
    exact reads_pure _
  | fixed32 n =>
    have htake : Reads (takeFor field 4) (Bytes.ofUInt32 n) (Bytes.ofUInt32 n) :=
      (reads_take (Bytes.length_ofUInt32 n)).blame _
    refine htake.then ?_
    rw [Bytes.ofUInt32, Bytes.toNatLE_ofNatLE_of_lt n.toNat_lt, UInt32.ofNat_toNat]
    exact reads_pure _
  | @delimited _ b hnumber =>
    have htake : Reads (takeFor field (UInt64.ofNat b.length).toNat) b b := by
      refine (reads_take ?_).blame _
      rw [UInt64.toNat_ofNat_of_lt' hnumber.lt]
    exact (hnumber.reads.blame _).bind (htake.then (reads_pure _))

/-- The length of what is written has to be a number that can be written. -/
theorem spells_encode (h : w.encode.length < UInt64.size) : Spells w.encode w := by
  cases w with
  | varint n => exact .varint (Varint.spells_encode n.toNat_lt)
  | fixed64 n => exact .fixed64 n
  | fixed32 n => exact .fixed32 n
  | delimited b =>
    have hlength : b.length < UInt64.size := by
      simp only [encode, List.length_append] at h
      omega
    exact .delimited (Varint.spells_encode hlength)

end WireValue

/-- A field whose value is any that the wire has. -/
def Wire.encodeField (number : Nat) (w : WireValue) : Bytes :=
  WireKey.encode ⟨number, w.wireType⟩ ++ w.encode

theorem Wire.encodeDelimited_eq (number : Nat) (b : Bytes) :
    Wire.encodeDelimited number b = Wire.encodeField number (.delimited b) :=
  List.append_assoc _ _ _

/-! ## Fields in order -/

namespace Fields

variable {fields : Fields} {name : String} {v : FieldValue}

theorem insert_of_not_mem (h : name ∉ fields.map Prod.fst) :
    fields.insert name v = fields ++ [(name, v)] := by
  induction fields with
  | nil => rfl
  | cons entry rest ih =>
    obtain ⟨n, w⟩ := entry
    simp only [List.map_cons, List.mem_cons, not_or] at h
    rw [insert, if_neg (Ne.symm h.1), ih h.2]
    rfl

theorem get?_of_not_mem (h : name ∉ fields.map Prod.fst) : fields.get? name = none := by
  rw [get?, List.lookup_eq_none_iff]
  intro entry hentry
  have hne : name ≠ entry.1 := fun he => h (he ▸ List.mem_map_of_mem hentry)
  simpa using hne

theorem insert_append (h : name ∉ fields.map Prod.fst) (w : FieldValue) :
    insert (fields ++ [(name, v)]) name w = fields ++ [(name, w)] := by
  induction fields with
  | nil => simp [insert]
  | cons entry rest ih =>
    obtain ⟨n, w⟩ := entry
    simp only [List.map_cons, List.mem_cons, not_or] at h
    rw [List.cons_append, insert, if_neg (Ne.symm h.1), ih h.2]
    rfl

theorem get?_append (h : name ∉ fields.map Prod.fst) :
    get? (fields ++ [(name, v)]) name = some v := by
  rw [← insert_of_not_mem h, get?_insert, if_pos rfl]

theorem extend_of_not_mem (h : name ∉ fields.map Prod.fst) (items : List FieldValue) :
    fields.extend name items = fields ++ [(name, .array items)] := by
  rw [extend, get?_of_not_mem h]
  exact insert_of_not_mem h

theorem extend_append (h : name ∉ fields.map Prod.fst) (before items : List FieldValue) :
    extend (fields ++ [(name, .array before)]) name items =
      fields ++ [(name, .array (before ++ items))] := by
  rw [extend, get?_append h]
  exact insert_append h _

end Fields

/-! ## Types of fields -/

namespace RecordType

variable {type : RecordType} {name : String} {number : Nat} {decl : FieldDecl}

/-- The type has the field under a number that a key has room for. -/
structure Has (type : RecordType) (number : Nat) (decl : FieldDecl) : Prop where
  numbered : type.numbered? number = some decl
  pos : 0 < number
  lt : number < WireKey.numberBound

theorem mem_of_numbered? (h : type.numbered? number = some decl) : decl ∈ type.fields := by
  unfold numbered? at h
  split at h
  · cases h
  · exact List.mem_of_getElem? h

theorem exists_position? (htype : type.WellFormed) (h : name ∈ type.fields.map (·.name)) :
    ∃ number decl, type.position? name = some (number, decl) ∧ decl ∈ type.fields ∧
      decl.name = name ∧ type.Has number decl := by
  obtain ⟨decl, hdecl, hname⟩ := List.mem_map.mp h
  obtain ⟨i, hi⟩ := List.getElem?_of_mem hdecl
  cases hfind : type.fields.zipIdx.find? (·.1.name == name) with
  | none =>
    have hnone := List.find?_eq_none.mp hfind (decl, i) (List.mem_zipIdx_iff_getElem?.mpr hi)
    simp [hname] at hnone
  | some found =>
    obtain ⟨found, j⟩ := found
    have hfound := List.find?_some hfind
    have hj := List.mem_zipIdx_iff_getElem?.mp (List.mem_of_find?_eq_some hfind)
    obtain ⟨hlt, -⟩ := List.getElem?_eq_some_iff.mp hj
    have hlength := htype.length_lt
    refine ⟨j + 1, found, by rw [position?, hfind]; rfl, List.mem_of_getElem? hj,
      by simpa using hfound, hj, Nat.succ_pos j, ?_⟩
    simp only at hlt
    omega

end RecordType

/-- The records in values of the type are of types that the schema has. -/
def FieldType.Known (schema : Schema) : FieldType → Prop
  | simple _ => True
  | array item => item.Known schema
  | object type => type ∈ schema.composites

theorem FieldType.known_ofName (schema : Schema) (name : String) :
    (ofName schema name).Known schema := by
  unfold ofName
  fun_induction ofReversed schema name.toList.reverse with
  | case1 item ih => exact ih
  | case2 other _ name type hfind => exact List.mem_of_find?_eq_some hfind
  | case3 => trivial

/-! ## One value -/

section Names

variable {name : String} {v : FieldValue}

/-- Truth values and integers are numbers on the wire. -/
theorem FieldValue.FitsName.value_wireNumber (h : v.FitsName name)
    (hname : Scalar.IsIntegral name) :
    (Scalar.ofName name).value (.varint v.wireNumber) = v := by
  cases v with
  | bool b =>
    rw [Scalar.ofName_of_isNamed (s := .bool) h]
    cases b <;> rfl
  | int i =>
    rw [Scalar.ofName_of_isNamed (s := .int) h]
    rfl
  | uint n =>
    rw [Scalar.ofName_of_isNamed (s := .uint) h]
    rfl
  | text t => exact absurd hname.isNumeric (Scalar.not_isNumeric_of_isText h)
  | bytes b => exact absurd hname.isNumeric h.1
  | _ => cases h

/-- What is written for a value of a simple type means this value. -/
theorem FieldValue.FitsName.exists_wire (h : v.FitsName name) (schema : Schema) (number : Nat) :
    ∃ w : WireValue, v.encode schema number (.simple name) = Wire.encodeField number w ∧
      (Scalar.ofName name).value w = v := by
  cases v with
  | bool b => exact ⟨.varint _, rfl, h.value_wireNumber (.inl h)⟩
  | int i => exact ⟨.varint _, rfl, h.value_wireNumber (.inr (.inl h))⟩
  | uint n => exact ⟨.varint _, rfl, h.value_wireNumber (.inr (.inr h))⟩
  | text t =>
    rw [Scalar.ofName_of_isNamed (s := .text) h]
    refine ⟨.delimited (Utf8.encode t), Wire.encodeDelimited_eq _ _, ?_⟩
    rw [Scalar.value, Utf8.decode_encode]
  | bytes b =>
    rw [Scalar.ofName_of_isNamed (s := .other) h]
    exact ⟨.delimited b, Wire.encodeDelimited_eq _ _, rfl⟩
  | _ => cases h

/-- Where values do not stand together in arrays, they are read one by one. -/
theorem FieldValue.FitsName.packing? (h : v.FitsName name) (hname : ¬Scalar.IsIntegral name) :
    (Scalar.ofName name).packing? = none := by
  cases v with
  | bool b => exact absurd (.inl h) hname
  | int i => exact absurd (.inr (.inl h)) hname
  | uint n => exact absurd (.inr (.inr h)) hname
  | text t => exact Scalar.packing?_of_not_isNumeric (Scalar.not_isNumeric_of_isText h)
  | bytes b => exact Scalar.packing?_of_not_isNumeric h.1
  | _ => cases h

end Names

namespace RecordDecoder

variable {nested : RecordDecoder} {schema : Schema} {record : RecordType → Fields → Prop}
  {type : RecordType} {number : Nat} {decl : FieldDecl} {t item : FieldType} {v : FieldValue}
  {w : WireValue} {fields fields' : Fields} {rest : Bytes}

/-- The decoder reads what was written for records, if its length can be written. -/
def Restores (nested : RecordDecoder) (schema : Schema) (record : RecordType → Fields → Prop) :
    Prop :=
  ∀ type ∈ schema.composites, ∀ fields, record type fields →
    (FieldValue.encodeFields schema type fields).length < UInt64.size →
    nested type (FieldValue.encodeFields schema type fields) = .ok fields

theorem encodeField_length_le (number : Nat) (w : WireValue) :
    w.encode.length ≤ (Wire.encodeField number w).length := by
  simp [Wire.encodeField]

theorem exists_wire (hnested : nested.Restores schema record) (hknown : t.Known schema)
    (hfits : v.FitsAlone record t) (hlength : (v.encode schema number t).length < UInt64.size) :
    ∃ w : WireValue, v.encode schema number t = Wire.encodeField number w ∧
      nested.value t w = .ok v := by
  unfold FieldValue.FitsAlone at hfits
  split at hfits
  · rename_i name
    obtain ⟨w, hwire, hvalue⟩ := hfits.exists_wire schema number
    exact ⟨w, hwire, congrArg Except.ok hvalue⟩
  · rename_i type inner
    have hwire : FieldValue.encode schema number (.object type) (.object inner) =
        Wire.encodeField number (.delimited (FieldValue.encodeFields schema type inner)) :=
      Wire.encodeDelimited_eq _ _
    refine ⟨_, hwire, ?_⟩
    have hle := encodeField_length_le number
      (.delimited (FieldValue.encodeFields schema type inner))
    rw [hwire] at hlength
    have hinner : (FieldValue.encodeFields schema type inner).length < UInt64.size := by
      simp only [WireValue.encode, List.length_append] at hle
      omega
    simp only [value, hnested type hknown inner hfits hinner]
    rfl
  · cases hfits

/-! ## One field -/

/-- Reads more fields of a record. -/
def readOn (nested : RecordDecoder) (schema : Schema) (type : RecordType) (fields : Fields)
    (b : Bytes) : Except PayloadError Fields :=
  foldToEnd (nested.readField schema type) (nested.takesAtLeast_readField schema type) fields b

theorem readOn_spells {key value : Bytes} (hnumber : type.numbered? number = some decl)
    (hkey : WireKey.Spells key ⟨number, w.wireType⟩) (hvalue : WireValue.Spells value w)
    (hupdate : nested.update schema fields decl w = .ok fields') :
    nested.readOn schema type fields (key ++ value ++ rest) =
      nested.readOn schema type fields' rest := by
  refine foldToEnd_append ((hkey.reads.blame _).bind ?_)
  simp only [hnumber]
  refine (hvalue.reads decl.name).then ?_
  rw [hupdate]
  exact reads_done _

theorem readOn_encodeField (hfield : type.Has number decl)
    (hlength : (Wire.encodeField number w).length < UInt64.size)
    (hupdate : nested.update schema fields decl w = .ok fields') :
    nested.readOn schema type fields (Wire.encodeField number w ++ rest) =
      nested.readOn schema type fields' rest :=
  readOn_spells hfield.numbered (WireKey.spells_encode hfield.pos hfield.lt)
    (WireValue.spells_encode (Nat.lt_of_le_of_lt (encodeField_length_le number w) hlength)) hupdate

theorem update_alone (hnot : (FieldType.ofName schema decl.type).isArray = false) :
    nested.update schema fields decl w = (do
      return fields.insert decl.name
        (← nested.value (FieldType.ofName schema decl.type) w)) := by
  unfold update
  split
  · rename_i item hitem
    rw [hitem] at hnot
    cases hnot
  · rfl

theorem update_array (hitem : FieldType.ofName schema decl.type = .array item) :
    nested.update schema fields decl w = (do
      return fields.extend decl.name (← nested.items decl.name item w)) := by
  simp only [update, hitem]

theorem items_alone (field : String) (hpacks : item.scalar.packing? = none) :
    nested.items field item w = (do return [← nested.value item w]) := by
  cases w <;> simp only [items, hpacks]

theorem readOn_item (hnested : nested.Restores schema record) (hfield : type.Has number decl)
    (hitem : FieldType.ofName schema decl.type = .array item)
    (hpacks : item.scalar.packing? = none) (hfits : v.FitsAlone record item)
    (hlength : (v.encode schema number item).length < UInt64.size) :
    nested.readOn schema type fields (v.encode schema number item ++ rest) =
      nested.readOn schema type (fields.extend decl.name [v]) rest := by
  have hknown : item.Known schema := by
    have harray := FieldType.known_ofName schema decl.type
    rw [hitem] at harray
    exact harray
  obtain ⟨w, hwire, hvalue⟩ := exists_wire hnested hknown hfits hlength
  rw [hwire] at hlength ⊢
  refine readOn_encodeField hfield hlength ?_
  rw [update_array hitem, items_alone _ hpacks, hvalue]
  rfl

theorem readOn_encodeEach {items before : List FieldValue}
    (hnested : nested.Restores schema record) (hfield : type.Has number decl)
    (hitem : FieldType.ofName schema decl.type = .array item)
    (hpacks : item.scalar.packing? = none) (hnew : decl.name ∉ fields.map Prod.fst)
    (hfits : ∀ v ∈ items, v.FitsAlone record item)
    (hlength : (FieldValue.encodeEach schema number item items).length < UInt64.size) :
    nested.readOn schema type (fields ++ [(decl.name, .array before)])
        (FieldValue.encodeEach schema number item items ++ rest) =
      nested.readOn schema type (fields ++ [(decl.name, .array (before ++ items))]) rest := by
  induction items generalizing before with
  | nil => simp [FieldValue.encodeEach]
  | cons v items ih =>
    obtain ⟨hv, hitems⟩ := List.forall_mem_cons.mp hfits
    rw [FieldValue.encodeEach] at hlength ⊢
    rw [List.length_append] at hlength
    rw [List.append_assoc, readOn_item hnested hfield hitem hpacks hv (by omega),
      Fields.extend_append hnew, ih hitems (by omega), List.append_assoc]
    rfl

/-! ## Packed items -/

/-- Items that stand together are read one by one, however each of them is written. -/
theorem packedItems_spells (field : String) (s : Scalar) {packing : WireType}
    {items : List (WireValue × Bytes)}
    (hitems : ∀ item ∈ items, item.1.wireType = packing ∧ item.1.Spells item.2) :
    packedItems field s packing (items.flatMap Prod.snd) =
      .ok (items.map fun item => s.value item.1) := by
  have hfold (seen : List FieldValue) :
      foldToEnd (packedItem field s packing) (takesAtLeast_packedItem field s packing) seen
        (items.flatMap Prod.snd) =
        .ok ((items.map fun item => s.value item.1).reverse ++ seen) := by
    induction items generalizing seen with
    | nil => exact foldToEnd_nil
    | cons item items ih =>
      obtain ⟨⟨rfl, hspells⟩, hitems⟩ := List.forall_mem_cons.mp hitems
      have hread : Reads (packedItem field s item.1.wireType seen) item.2
          (s.value item.1 :: seen) :=
        (hspells.reads field).then (reads_pure _)
      rw [List.flatMap_cons, foldToEnd_append hread, ih hitems, List.map_cons, List.reverse_cons,
        List.append_assoc]
      rfl
  unfold packedItems
  rw [hfold, List.append_nil]
  show Except.ok (List.reverse (List.reverse _)) = _
  rw [List.reverse_reverse]

theorem packedItems_encode (field : String) (s : Scalar) (items : List FieldValue)
    (hitems : ∀ v ∈ items, s.value (.varint v.wireNumber) = v) :
    packedItems field s .varint (items.flatMap fun v => Varint.encode v.wireNumber.toNat) =
      .ok items := by
  let written (v : FieldValue) : WireValue × Bytes :=
    (.varint v.wireNumber, Varint.encode v.wireNumber.toNat)
  have hwritten : ∀ item ∈ items.map written, item.1.wireType = .varint ∧
      item.1.Spells item.2 :=
    List.forall_mem_map.mpr fun v _ => ⟨rfl, .varint (Varint.spells_encode v.wireNumber.toNat_lt)⟩
  have hpacked := packedItems_spells field s hwritten
  rw [List.flatMap_map, List.map_map] at hpacked
  rw [hpacked]
  exact congrArg Except.ok ((List.map_congr_left hitems).trans (List.map_id _))

theorem readOn_packed {items : List FieldValue} (hfield : type.Has number decl)
    (hitem : FieldType.ofName schema decl.type = .array item) (htogether : item.StandTogether)
    (hfits : ∀ v ∈ items, v.FitsAlone record item)
    (hlength : (FieldValue.encode schema number (.array item) (.array items)).length <
      UInt64.size) :
    nested.readOn schema type fields
        (FieldValue.encode schema number (.array item) (.array items) ++ rest) =
      nested.readOn schema type (fields.extend decl.name items) rest := by
  have hencode : FieldValue.encode schema number (.array item) (.array items) =
      Wire.encodeField number
        (.delimited (items.flatMap fun v => Varint.encode v.wireNumber.toNat)) := by
    rw [FieldValue.encode, if_pos htogether]
    exact Wire.encodeDelimited_eq _ _
  rw [hencode] at hlength ⊢
  refine readOn_encodeField hfield hlength ?_
  cases item with
  | simple name =>
    have hvarint : (FieldType.simple name).scalar.packing? = some .varint :=
      Scalar.packing?_of_isIntegral htogether
    have hvalues : ∀ v ∈ items, (FieldType.simple name).scalar.value (.varint v.wireNumber) = v :=
      fun v hv => FieldValue.FitsName.value_wireNumber (hfits v hv) htogether
    rw [update_array hitem]
    simp only [RecordDecoder.items, hvarint, packedItems_encode decl.name _ items hvalues]
    rfl
  | _ => cases htogether

/-- Items that do not stand together are no items that the decoder unpacks. -/
theorem packing?_of_fits (happart : ¬item.StandTogether) (hfits : v.FitsAlone record item) :
    item.scalar.packing? = none := by
  cases item with
  | simple name => exact FieldValue.FitsName.packing? hfits happart
  | _ => rfl

theorem readOn_each {items : List FieldValue} (hnested : nested.Restores schema record)
    (hfield : type.Has number decl) (hitem : FieldType.ofName schema decl.type = .array item)
    (happart : ¬item.StandTogether) (hnew : decl.name ∉ fields.map Prod.fst)
    (hne : items ≠ []) (hfits : ∀ v ∈ items, v.FitsAlone record item)
    (hlength : (FieldValue.encode schema number (.array item) (.array items)).length <
      UInt64.size) :
    nested.readOn schema type fields
        (FieldValue.encode schema number (.array item) (.array items) ++ rest) =
      nested.readOn schema type (fields ++ [(decl.name, .array items)]) rest := by
  have hencode : FieldValue.encode schema number (.array item) (.array items) =
      FieldValue.encodeEach schema number item items := by
    rw [FieldValue.encode, if_neg happart]
  obtain ⟨first, others, rfl⟩ := List.exists_cons_of_ne_nil hne
  obtain ⟨hfirst, hothers⟩ := List.forall_mem_cons.mp hfits
  have hpacks := packing?_of_fits happart hfirst
  rw [hencode, FieldValue.encodeEach, List.length_append] at hlength
  rw [hencode, FieldValue.encodeEach, List.append_assoc,
    readOn_item hnested hfield hitem hpacks hfirst (by omega), Fields.extend_of_not_mem hnew,
    readOn_encodeEach hnested hfield hitem hpacks hnew hothers (by omega)]
  rfl

theorem readOn_alone (hnested : nested.Restores schema record) (hfield : type.Has number decl)
    (hfits : v.FitsAlone record (.ofName schema decl.type))
    (hnew : decl.name ∉ fields.map Prod.fst)
    (hlength : (v.encode schema number (.ofName schema decl.type)).length < UInt64.size) :
    nested.readOn schema type fields
        (v.encode schema number (.ofName schema decl.type) ++ rest) =
      nested.readOn schema type (fields ++ [(decl.name, v)]) rest := by
  have hknown := FieldType.known_ofName schema decl.type
  have hnot : (FieldType.ofName schema decl.type).isArray = false := by
    cases htype : FieldType.ofName schema decl.type with
    | array item =>
      rw [htype] at hfits
      cases hfits
    | _ => rfl
  obtain ⟨w, hwire, hvalue⟩ := exists_wire hnested hknown hfits hlength
  rw [hwire] at hlength ⊢
  refine readOn_encodeField hfield hlength ?_
  rw [update_alone hnot, hvalue]
  exact congrArg Except.ok (Fields.insert_of_not_mem hnew)

theorem readOn_encode (hnested : nested.Restores schema record) (hfield : type.Has number decl)
    (hfits : v.Fits record (.ofName schema decl.type)) (hnew : decl.name ∉ fields.map Prod.fst)
    (hlength : (v.encode schema number (.ofName schema decl.type)).length < UInt64.size) :
    nested.readOn schema type fields
        (v.encode schema number (.ofName schema decl.type) ++ rest) =
      nested.readOn schema type (fields ++ [(decl.name, v)]) rest := by
  unfold FieldValue.Fits at hfits
  split at hfits
  · rename_i item items hitem
    obtain ⟨hne, hfits⟩ := hfits
    rw [hitem] at hlength ⊢
    by_cases htogether : item.StandTogether
    · rw [readOn_packed hfield hitem htogether hfits hlength, Fields.extend_of_not_mem hnew]
    · exact readOn_each hnested hfield hitem htogether hnew hne hfits hlength
  · exact readOn_alone hnested hfield hfits hnew hlength

/-! ## Records -/

theorem readOn_encodeFields {more : Fields} (hnested : nested.Restores schema record)
    (htype : type.WellFormed) (hdistinct : ((fields ++ more).map Prod.fst).Nodup)
    (hnames : ∀ entry ∈ more, entry.1 ∈ type.fields.map (·.name))
    (hfits : ∀ entry ∈ more, ∀ decl ∈ type.fields, decl.name = entry.1 →
      entry.2.Fits record (.ofName schema decl.type))
    (hlength : (FieldValue.encodeFields schema type more).length < UInt64.size) :
    nested.readOn schema type fields (FieldValue.encodeFields schema type more) =
      .ok (fields ++ more) := by
  induction more generalizing fields with
  | nil =>
    rw [List.append_nil]
    exact foldToEnd_nil
  | cons entry more ih =>
    obtain ⟨name, v⟩ := entry
    obtain ⟨hname, hmore⟩ := List.forall_mem_cons.mp hnames
    obtain ⟨number, decl, hposition, hdecl, rfl, hfield⟩ :=
      RecordType.exists_position? htype hname
    have hencode : FieldValue.encodeFields schema type ((decl.name, v) :: more) =
        v.encode schema number (.ofName schema decl.type) ++
          FieldValue.encodeFields schema type more := by
      rw [FieldValue.encodeFields, hposition]
    rw [hencode, List.length_append] at hlength
    obtain ⟨hv, hfits⟩ := List.forall_mem_cons.mp hfits
    have hv : v.Fits record (.ofName schema decl.type) := hv decl hdecl rfl
    -- No name comes twice, so every field is put behind those that are there.
    have hnew : decl.name ∉ fields.map Prod.fst := by
      rw [List.map_append, List.nodup_append] at hdistinct
      intro hmem
      exact hdistinct.2.2 _ hmem _ List.mem_cons_self rfl
    have hrest : fields ++ (decl.name, v) :: more = fields ++ [(decl.name, v)] ++ more := by simp
    rw [hrest] at hdistinct ⊢
    rw [hencode, readOn_encode hnested hfield hv hnew (by omega)]
    exact ih hdistinct hmore hfits (by omega)

theorem around_encodeFields (hnested : nested.Restores schema record) (htype : type.WellFormed)
    (hfit : fields.Fit schema record type)
    (hlength : (FieldValue.encodeFields schema type fields).length < UInt64.size) :
    nested.around schema type (FieldValue.encodeFields schema type fields) = .ok fields := by
  refine readOn_encodeFields hnested htype ?_ ?_ hfit.fits hlength
  · exact hfit.sublist.nodup htype.nodup
  · intro entry hentry
    exact hfit.sublist.subset (List.mem_map_of_mem hentry)

theorem restores_within (hschema : schema.WellFormed) (limit levels : Nat) :
    (within schema limit levels).Restores schema (Fields.FitWithin schema levels) := by
  induction levels with
  | zero =>
    intro type htype fields hfit
    exact hfit.elim
  | succ levels ih =>
    intro type htype fields hfit hlength
    exact around_encodeFields ih (hschema type (List.mem_append_right _ htype)) hfit hlength

end RecordDecoder

/-- Decoding gives back the fields that were written, for every type that a schema has and every
choice of its fields that does not go deeper than the limit. -/
theorem PayloadDecoder.wire_encodeFields {limit : Nat} {schema : Schema} {type : RecordType}
    {fields : Fields} (hschema : schema.WellFormed)
    (htype : type ∈ schema.payloads ++ schema.composites)
    (hfit : fields.FitWithin schema (limit + 1) type)
    (hlength : (FieldValue.encodeFields schema type fields).length < UInt64.size) :
    PayloadDecoder.wire limit schema type (FieldValue.encodeFields schema type fields) =
      .ok fields :=
  RecordDecoder.around_encodeFields (RecordDecoder.restores_within hschema limit limit)
    (hschema type htype) hfit hlength

/-- A record in a record, numbers that stand together and texts that do not. -/
theorem PayloadDecoder.wire_encodeFields_nested :
    let entity : RecordType :=
      { name := "Entity"
        fields := [{ name := "Name", type := "varchar" }, { name := "Parent", type := "Entity" },
          { name := "Codes", type := "uint32[]" }, { name := "Offset", type := "int" },
          { name := "Notes", type := "text[]" }] }
    let schema : Schema := { composites := [entity] }
    let fields : Fields :=
      [("Name", .text "é"), ("Parent", .object [("Name", .text "")]),
        ("Codes", .array [.uint 1, .uint 300]), ("Offset", .int (-1)),
        ("Notes", .array [.text "a", .text ""])]
    FieldValue.encodeFields schema entity fields =
        [0x0a, 2, 0xc3, 0xa9, 0x12, 2, 0x0a, 0, 0x1a, 3, 1, 0xac, 2, 0x20] ++
          List.replicate 9 0xff ++ [1, 0x2a, 1, 0x61, 0x2a, 0] ∧
      PayloadDecoder.wire 1 schema entity (FieldValue.encodeFields schema entity fields) =
        .ok fields := by
  intro entity schema fields
  have hschema : schema.WellFormed := by decide
  have hfit : fields.FitWithin schema 2 entity := by decide +kernel
  exact ⟨by decide +kernel, wire_encodeFields hschema (by decide) hfit (by decide +kernel)⟩

end Utxo
