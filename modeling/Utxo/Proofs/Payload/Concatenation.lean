import Utxo.Proofs.Payload.Merging
import Utxo.Proofs.Payload.RoundTrip
import Utxo.Proofs.Wire.Fields

/-!
# Payloads one behind the other

A payload is read field by field, and what a field brings does not depend on the fields before it or
behind it. So two payloads in a row are the first one, updated by the second; and a field that the
type does not have makes no difference, wherever it stands.
-/

namespace Utxo

open WireReader

/-! ## What a field brings -/

theorem RecordType.field?_of_mem {type : RecordType} {field : FieldDecl}
    (hnames : (type.fields.map (·.name)).Nodup) (hfield : field ∈ type.fields) :
    type.field? field.name = some field := by
  unfold RecordType.field?
  generalize type.fields = fields at hnames hfield
  induction fields with
  | nil => cases hfield
  | cons first rest ih =>
    rw [List.map_cons, List.nodup_cons] at hnames
    rcases List.mem_cons.mp hfield with rfl | hrest
    · simp
    · have hne : first.name ≠ field.name := fun heq =>
        hnames.1 (heq ▸ List.mem_map_of_mem hrest)
      rw [List.find?_cons_of_neg (by simpa using hne)]
      exact ih hnames.2 hrest

theorem RecordType.ofField?_of_numbered {schema : Schema} {type : RecordType} {number : Nat}
    {field : FieldDecl} (hnames : (type.fields.map (·.name)).Nodup)
    (hfield : type.numbered? number = some field) :
    FieldType.ofField? schema type field.name = some (.ofName schema field.type) := by
  rw [FieldType.ofField?, RecordType.field?_of_mem hnames (RecordType.mem_of_numbered? hfield)]
  rfl

theorem WireValue.local_read (field : String) (t : WireType) : Local (read field t) := by
  have hvarint := Varint.local_read.blame PayloadError.wire
  have htake := fun n => (local_take n).blame (PayloadError.overrun field)
  cases t with
  | varint => exact hvarint.bind fun _ => local_pure _
  | fixed64 => exact (htake 8).bind fun _ => local_pure _
  | delimited => exact hvarint.bind fun _ => (htake _).bind fun _ => local_pure _
  | groupStart => exact local_throw _
  | groupEnd => exact local_throw _
  | fixed32 => exact (htake 4).bind fun _ => local_pure _

theorem Wire.IsValue.reads {t : WireType} {b : Bytes} (h : IsValue t b) (field : String) :
    ∃ w, Reads (WireValue.read field t) b w := by
  cases h with
  | varint hnumber => exact ⟨_, (hnumber.reads.blame _).then (reads_pure _)⟩
  | fixed64 hlength => exact ⟨_, ((reads_take hlength).blame _).then (reads_pure _)⟩
  | fixed32 hlength => exact ⟨_, ((reads_take hlength).blame _).then (reads_pure _)⟩
  | delimited hnumber =>
    refine ⟨_, (hnumber.reads.blame _).bind (((reads_take ?_).blame _).then (reads_pure _))⟩
    rw [UInt64.toNat_ofNat_of_lt' hnumber.lt]

namespace RecordDecoder

variable {nested : RecordDecoder} {schema : Schema} {type : RecordType} {field : FieldDecl}
  {w : WireValue} {v : FieldValue} {fields fields' before : Fields} {b rest : Bytes}
  {levels number : Nat}

def brought (nested : RecordDecoder) (schema : Schema) (field : FieldDecl) (w : WireValue) :
    Except PayloadError FieldValue :=
  match FieldType.ofName schema field.type with
  | .array item => .array <$> nested.items field.name item w
  | t => nested.value t w

/-- The next field and what it brings, if the type has it. -/
def next? (nested : RecordDecoder) (schema : Schema) (type : RecordType) :
    WireReader PayloadError (Option (String × FieldValue)) := do
  let key ← WireKey.read.blame .wire
  match type.numbered? key.number with
  | none =>
    (Wire.skip key).blame .wire
    return none
  | some field =>
    let w ← WireValue.read field.name key.wireType
    let v ← Stateful.done (nested.brought schema field w)
    return some (field.name, v)

theorem update_eq_put
    (hfield : FieldType.ofField? schema type field.name = some (.ofName schema field.type)) :
    nested.update schema fields field w =
      (fun v => fields.put schema type (field.name, v)) <$> nested.brought schema field w := by
  unfold update brought Fields.put
  simp only [hfield]
  cases FieldType.ofName schema field.type with
  | array item =>
    dsimp only
    cases nested.items field.name item w <;> rfl
  | simple name => cases nested.value (.simple name) w <;> rfl
  | object type => cases nested.value (.object type) w <;> rfl

theorem suits_brought
    (hfield : FieldType.ofField? schema type field.name = some (.ofName schema field.type))
    (h : nested.brought schema field w = .ok v) : Fields.Suits schema type (field.name, v) := by
  intro item hitem
  rw [hfield] at hitem
  unfold brought at h
  rw [Option.some.inj hitem] at h
  dsimp only at h
  cases hitems : nested.items field.name item w with
  | error e =>
    rw [hitems] at h
    cases h
  | ok items =>
    rw [hitems] at h
    cases h
    exact ⟨items, rfl⟩

/-- Reading a field is finding what it brings, with no regard to the other fields, and giving them
that. -/
theorem readField_eq (hnames : (type.fields.map (·.name)).Nodup) :
    nested.readField schema type fields =
      (fun found? => found?.elim fields (fields.put schema type)) <$> nested.next? schema type := by
  unfold readField next?
  rw [map_eq_pure_bind, bind_assoc]
  congr 1
  funext key
  cases hfield : type.numbered? key.number with
  | none =>
    simp only [bind_assoc, pure_bind]
    rfl
  | some field =>
    simp only [bind_assoc, pure_bind, update_eq_put (type.ofField?_of_numbered hnames hfield)]
    congr 1
    funext w
    cases nested.brought schema field w <;> rfl

theorem suits_of_next? (hnames : (type.fields.map (·.name)).Nodup)
    {entry : String × FieldValue}
    (h : (nested.next? schema type).runFrom b = (.ok (some entry), rest)) :
    Fields.Suits schema type entry := by
  obtain ⟨key, _, -, h⟩ := Stateful.runFrom_bind_ok.mp h
  split at h
  · obtain ⟨_, _, -, h⟩ := Stateful.runFrom_bind_ok.mp h
    cases h
  · rename_i field hfield
    obtain ⟨w, _, -, h⟩ := Stateful.runFrom_bind_ok.mp h
    obtain ⟨v, _, hv, h⟩ := Stateful.runFrom_bind_ok.mp h
    cases h
    exact suits_brought (type.ofField?_of_numbered hnames hfield) (Prod.mk.inj hv).1

theorem local_readField (fields : Fields) : Local (nested.readField schema type fields) := by
  refine (WireKey.local_read.blame _).bind fun key => ?_
  split
  · exact ((Wire.local_skip key).blame _).bind fun _ => local_pure _
  · exact (WireValue.local_read _ _).bind fun _ => local_done _

/-! ## Reading on -/

theorem readOn_of_ok (h : (nested.readField schema type fields).runFrom b = (.ok fields', rest)) :
    nested.readOn schema type fields b = nested.readOn schema type fields' rest := by
  obtain ⟨taken, rfl, hreads⟩ := local_readField fields h
  exact foldToEnd_append hreads

theorem readOn_of_error {e : PayloadError} (hb : b ≠ [])
    (h : (nested.readField schema type fields).runFrom b = (.error e, rest)) :
    nested.readOn schema type fields b = .error e :=
  foldToEnd_of_error hb h

theorem runFrom_readField (hnames : (type.fields.map (·.name)).Nodup) (fields : Fields)
    (b : Bytes) :
    (nested.readField schema type fields).runFrom b =
      match (nested.next? schema type).runFrom b with
      | (.ok found?, rest) => (.ok (found?.elim fields (fields.put schema type)), rest)
      | (.error e, rest) => (.error e, rest) := by
  rw [readField_eq hnames, Stateful.runFrom_map]
  rcases (nested.next? schema type).runFrom b with ⟨_ | _, _⟩ <;> rfl

/-- Fields that were there before are updated by all that is read. -/
theorem readOn_merge (hnames : (type.fields.map (·.name)).Nodup) (before : Fields)
    (hfields : fields.Regular schema type) :
    nested.readOn schema type (before.merge schema type fields) b =
      (before.merge schema type ·) <$> nested.readOn schema type fields b := by
  induction hn : b.length using Nat.strongRecOn generalizing b fields with
  | _ n ih =>
    subst hn
    by_cases hb : b = []
    · subst hb
      simp only [readOn, foldToEnd_nil]
      rfl
    -- The next field is the same for both, and they differ only in what it is put behind.
    have hread := @runFrom_readField nested schema type hnames
    have hmerged := hread (before.merge schema type fields) b
    have hrun := hread fields b
    rcases hnext : (nested.next? schema type).runFrom b with ⟨e | found?, rest⟩
    · rw [hnext] at hmerged hrun
      rw [readOn_of_error hb hmerged, readOn_of_error hb hrun]
      rfl
    · rw [hnext] at hmerged hrun
      have hshorter := nested.takesAtLeast_readField schema type fields hrun
      rw [readOn_of_ok hmerged, readOn_of_ok hrun]
      cases found? with
      | none => exact ih _ (by omega) hfields rfl
      | some entry =>
        have hsuits := suits_of_next? hnames hnext
        have hput : before.merge schema type (fields.put schema type entry) =
            (before.merge schema type fields).put schema type entry := Fields.merge_put hfields
        rw [Option.elim_some, Option.elim_some, ← hput]
        exact ih _ (by omega) (hfields.put hsuits) rfl

theorem readOn_append (h : nested.readOn schema type fields b = .ok fields') (more : Bytes) :
    nested.readOn schema type fields (b ++ more) = nested.readOn schema type fields' more :=
  foldToEnd_of_ok local_readField h more

/-! ## Fields that the type does not have -/

theorem reads_readField_of_skip {t : WireType} {key value : Bytes}
    (hkey : WireKey.Spells key ⟨number, t⟩) (hnumber : type.numbered? number = none)
    (hskip : Reads (Wire.skip ⟨number, t⟩) value ()) (fields : Fields) :
    Reads (nested.readField schema type fields) (key ++ value) fields := by
  refine (hkey.reads.blame _).bind ?_
  simp only [hnumber]
  exact (hskip.blame _).then (reads_pure fields)

theorem readField_of_isField (h : Wire.IsField levels number b) (fields : Fields) :
    (∃ fields', Reads (nested.readField schema type fields) b fields') ∨
      ∃ e, Fails (nested.readField schema type fields) b e := by
  obtain ⟨t, key, value, rfl, hkey, hvalue, hskip⟩ := h.exists_key
  have hread := hkey.reads.blame PayloadError.wire
  cases hnumber : type.numbered? number with
  | none =>
    rcases hskip with hskip | ⟨-, hskip⟩
    · exact .inl ⟨fields, reads_readField_of_skip hkey hnumber hskip fields⟩
    · refine .inr ⟨.wire .tooDeep, hread.fails ?_⟩
      simp only [hnumber]
      exact (hskip.blame PayloadError.wire).bind _
  | some field =>
    rcases hvalue with rfl | hvalue
    · refine .inr ⟨.group field.name .groupStart, hread.fails ?_⟩
      simp only [hnumber]
      exact ((fails_throw _).append value).bind _
    · obtain ⟨w, hw⟩ := hvalue.reads field.name
      cases hupdate : nested.update schema fields field w with
      | error e =>
        refine .inr ⟨e, hread.fails ?_⟩
        simp only [hnumber]
        rw [← List.append_nil value]
        refine hw.fails ?_
        rw [hupdate]
        exact fails_done e
      | ok fields' =>
        refine .inl ⟨fields', hread.bind ?_⟩
        simp only [hnumber]
        refine hw.then ?_
        rw [hupdate]
        exact reads_done fields'

/-- A field that the type does not have leaves the others as they are. -/
theorem reads_readField_of_unknown (h : Wire.IsField Wire.maxOpenGroups number b)
    (hnumber : type.numbered? number = none) (fields : Fields) :
    Reads (nested.readField schema type fields) b fields := by
  obtain ⟨t, key, value, rfl, hkey, -, hskip | ⟨hdeep, -⟩⟩ := h.exists_key
  · exact reads_readField_of_skip hkey hnumber hskip fields
  · exact absurd hdeep (Nat.lt_irrefl _)

/-- What stands behind some fields is read from where they lead, or it is not read at all. -/
theorem readOn_parts {parts : List (Nat × Bytes)}
    (h : ∀ part ∈ parts, Wire.IsField levels part.1 part.2) (fields : Fields) :
    (∃ fields', ∀ rest, nested.readOn schema type fields (parts.flatMap Prod.snd ++ rest) =
        nested.readOn schema type fields' rest) ∨
      ∃ e, ∀ rest, nested.readOn schema type fields (parts.flatMap Prod.snd ++ rest) =
        .error e := by
  induction parts generalizing fields with
  | nil => exact .inl ⟨fields, fun _ => rfl⟩
  | cons part parts ih =>
    obtain ⟨hpart, hparts⟩ := List.forall_mem_cons.mp h
    simp only [List.flatMap_cons, List.append_assoc]
    rcases readField_of_isField hpart fields with ⟨fields', hreads⟩ | ⟨e, hfails⟩
    · have hstep (rest : Bytes) : nested.readOn schema type fields (part.2 ++ rest) =
          nested.readOn schema type fields' rest := foldToEnd_append hreads
      simp only [hstep]
      exact ih hparts fields'
    · refine .inr ⟨e, fun rest => ?_⟩
      obtain ⟨rest', hrun⟩ := hfails (parts.flatMap Prod.snd ++ rest)
      exact readOn_of_error (by simp [hpart.ne_nil]) hrun

end RecordDecoder

/-- Bytes behind a payload update the fields that it has, just as they would be read alone. And a
field that the type does not have can be put between any two others. -/
theorem PayloadDecoder.wire_append {limit : Nat} {schema : Schema} {type : RecordType}
    (hnames : (type.fields.map (·.name)).Nodup) :
    (∀ p q before, wire limit schema type p = .ok before →
      wire limit schema type (p ++ q) =
        (before.merge schema type ·) <$> wire limit schema type q) ∧
    ∀ p q b number, Wire.AreFields p → Wire.IsField Wire.maxOpenGroups number b →
      type.numbered? number = none →
        wire limit schema type (p ++ b ++ q) = wire limit schema type (p ++ q) := by
  have hwire (b : Bytes) : wire limit schema type b =
      (RecordDecoder.within schema limit limit).readOn schema type [] b := rfl
  simp only [hwire]
  constructor
  · intro p q before h
    rw [RecordDecoder.readOn_append h]
    exact RecordDecoder.readOn_merge hnames before Fields.regular_nil
  · rintro _ q b number ⟨levels, parts, hparts, rfl⟩ hfield hnumber
    rw [List.append_assoc]
    rcases RecordDecoder.readOn_parts hparts [] with ⟨fields, hread⟩ | ⟨e, hfail⟩
    · rw [hread, hread]
      exact foldToEnd_append (RecordDecoder.reads_readField_of_unknown hfield hnumber fields)
    · rw [hfail, hfail]

/-- A name that comes again, codes in two places and a group with a number that no field has. -/
theorem PayloadDecoder.wire_append_codes :
    let entity : RecordType :=
      { name := "Entity"
        fields := [{ name := "Name", type := "varchar" }, { name := "Codes", type := "uint32[]" }] }
    let p : Bytes := [0x0a, 1, 0x61, 0x12, 1, 5]
    let q : Bytes := [0x0a, 1, 0x62, 0x12, 2, 6, 7]
    let unknown : Bytes := [0x4b, 0x08, 1, 0x4c]
    let both : Fields := [("Name", .text "b"), ("Codes", .array [.uint 5, .uint 6, .uint 7])]
    wire 1 {} entity (p ++ q) = .ok both ∧ wire 1 {} entity (p ++ unknown ++ q) = .ok both := by
  intro entity p q unknown both
  let before : Fields := [("Name", .text "a"), ("Codes", .array [.uint 5])]
  let after : Fields := [("Name", .text "b"), ("Codes", .array [.uint 6, .uint 7])]
  have hwritten (fields : Fields) (hfit : fields.FitWithin {} 2 entity)
      (hlength : (FieldValue.encodeFields {} entity fields).length < UInt64.size) :
      wire 1 {} entity (FieldValue.encodeFields {} entity fields) = .ok fields :=
    RecordDecoder.around_encodeFields (RecordDecoder.restores_within (by decide) 1 1) (by decide)
      hfit hlength
  have hp : wire 1 {} entity p = .ok before := by
    have hwritten := hwritten before (by decide +kernel) (by decide +kernel)
    rwa [show FieldValue.encodeFields {} entity before = p by decide +kernel] at hwritten
  have hq : wire 1 {} entity q = .ok after := by
    have hwritten := hwritten after (by decide +kernel) (by decide +kernel)
    rwa [show FieldValue.encodeFields {} entity after = q by decide +kernel] at hwritten
  have hfirst : Wire.IsField 100 1 [0x0a, 1, 0x61] := by
    have hfield : Wire.IsField 100 1 (Wire.encodeDelimited 1 [0x61]) :=
      Wire.isField_encodeDelimited (by decide) (by decide) (by decide)
    rwa [show Wire.encodeDelimited 1 [0x61] = [0x0a, 1, 0x61] by decide +kernel] at hfield
  have hsecond : Wire.IsField 100 2 [0x12, 1, 5] := by
    have hfield : Wire.IsField 100 2 (Wire.encodeDelimited 2 [5]) :=
      Wire.isField_encodeDelimited (by decide) (by decide) (by decide)
    rwa [show Wire.encodeDelimited 2 [5] = [0x12, 1, 5] by decide +kernel] at hfield
  have hparts : Wire.AreFields p :=
    ⟨100, [(1, [0x0a, 1, 0x61]), (2, [0x12, 1, 5])],
      List.forall_mem_cons.mpr ⟨hfirst, List.forall_mem_singleton.mpr hsecond⟩, rfl⟩
  have hfield : Wire.IsField Wire.maxOpenGroups 9 unknown := by
    have hinner : Wire.IsField 99 1 (Wire.encodeVarint 1 1) :=
      Wire.isField_encodeVarint (by decide) (by decide) (by decide)
    have hgroup : Wire.IsField 100 9 (WireKey.encode ⟨9, .groupStart⟩ ++
        ([(1, Wire.encodeVarint 1 1)].flatMap Prod.snd ++ WireKey.encode ⟨9, .groupEnd⟩)) :=
      .group (WireKey.spells_encode (by decide) (by decide)) (List.forall_mem_singleton.mpr hinner)
        (WireKey.spells_encode (by decide) (by decide))
    rwa [show WireKey.encode ⟨9, .groupStart⟩ ++ ([(1, Wire.encodeVarint 1 1)].flatMap Prod.snd ++
        WireKey.encode ⟨9, .groupEnd⟩) = unknown by decide +kernel] at hgroup
  obtain ⟨happend, hunknown⟩ := @wire_append 1 {} entity (by decide)
  have hboth : wire 1 {} entity (p ++ q) = .ok both := by
    rw [happend p q before hp, hq]
    rfl
  exact ⟨hboth, (hunknown p q unknown 9 hparts hfield (by decide)).trans hboth⟩

end Utxo
