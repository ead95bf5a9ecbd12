import Mathlib.Algebra.GroupWithZero.Nat
import Utxo.Proofs.Payload.Merging
import Utxo.Proofs.Payload.RoundTrip

/-!
# No more values than bytes

Every value that a payload is read as has a byte of its own: the key of a field pays for its array
or is left over, and the value behind it pays for what it brings. So a payload has no more values,
at whatever depth, than bytes.
-/

namespace Utxo

open WireReader

/-! ## Counting values -/

namespace FieldValue

mutual

/-- How many values there are: this one, and all in it at whatever depth. -/
def nodes : FieldValue → Nat
  | object fields => 1 + memberNodes fields
  | array items => 1 + itemNodes items
  | bool _ | int _ | uint _ | float _ | text _ | bytes _ => 1

def itemNodes : List FieldValue → Nat
  | [] => 0
  | item :: rest => item.nodes + itemNodes rest

def memberNodes : List (String × FieldValue) → Nat
  | [] => 0
  | (_, value) :: rest => value.nodes + memberNodes rest

end

theorem itemNodes_eq (items : List FieldValue) : itemNodes items = (items.map nodes).sum := by
  induction items with
  | nil => rfl
  | cons item rest ih => rw [itemNodes, ih, List.map_cons, List.sum_cons]

theorem itemNodes_append (items more : List FieldValue) :
    itemNodes (items ++ more) = itemNodes items + itemNodes more := by
  simp only [itemNodes_eq, List.map_append, List.sum_append]

theorem itemNodes_reverse (items : List FieldValue) :
    itemNodes items.reverse = itemNodes items := by
  simp only [itemNodes_eq, List.map_reverse, List.sum_reverse]

end FieldValue

theorem Scalar.nodes_value (s : Scalar) (w : WireValue) : (s.value w).nodes = 1 := by
  unfold value
  split <;> rfl

namespace Fields

variable (fields : Fields) (name : String) (v : FieldValue) (items : List FieldValue)

/-- How many values there are in the fields of a record, at whatever depth. -/
def nodes (fields : Fields) : Nat := FieldValue.memberNodes fields

/-- A value comes in the place of the one that the field has. -/
theorem nodes_insert : (fields.insert name v).nodes + (fields.get? name).elim 0 FieldValue.nodes =
    fields.nodes + v.nodes := by
  unfold nodes get?
  induction fields with
  | nil => simp [insert, FieldValue.memberNodes]
  | cons entry rest ih =>
    obtain ⟨n, u⟩ := entry
    by_cases hn : n = name
    · rw [insert, if_pos hn, hn, List.lookup_cons_self]
      simp only [FieldValue.memberNodes, Option.elim_some]
      omega
    · rw [insert, if_neg hn, List.lookup_cons, beq_false_of_ne (Ne.symm hn)]
      simp only [FieldValue.memberNodes]
      omega

theorem nodes_insert_le : (fields.insert name v).nodes ≤ fields.nodes + v.nodes :=
  nodes_insert fields name v ▸ Nat.le_add_right _ _

/-- Items join those of the array that the field has; a new array is one more value. -/
theorem nodes_extend_le :
    (fields.extend name items).nodes ≤ fields.nodes + 1 + FieldValue.itemNodes items := by
  have hinsert := nodes_insert fields name (.array (fields.itemsOf name ++ items))
  have hbefore : FieldValue.itemNodes (fields.itemsOf name) ≤
      (fields.get? name).elim 0 FieldValue.nodes := by
    unfold itemsOf
    split
    · rename_i before hget
      rw [hget, Option.elim_some, FieldValue.nodes]
      exact Nat.le_add_left _ _
    · exact Nat.zero_le _
  rw [extend_eq_insert]
  rw [FieldValue.nodes, FieldValue.itemNodes_append] at hinsert
  omega

end Fields

/-! ## Paying with bytes -/

namespace WireReader

variable {ε ε' α β σ : Type} {credit k : Nat} {cost : α → Nat} {b : Bytes}

/-- What the reader makes costs no more than the bytes that it takes and a credit. -/
def Pays (credit : Nat) (reader : WireReader ε α) (cost : α → Nat) : Prop :=
  ∀ ⦃b a rest⦄, reader.runFrom b = (.ok a, rest) → cost a + rest.length ≤ credit + b.length

theorem pays_pure {a : α} (h : cost a ≤ credit) :
    Pays credit (pure a : WireReader ε α) cost := by
  intro b a' rest run
  cases run
  exact Nat.add_le_add_right h _

theorem pays_done {outcome : Except ε α} (h : ∀ a, outcome = .ok a → cost a ≤ credit) :
    Pays credit (Stateful.done outcome : WireReader ε α) cost := by
  intro b a rest run
  cases run
  exact Nat.add_le_add_right (h a rfl) _

/-- What is left of the bytes of the first reader is credit for the second one. -/
theorem Pays.bind {x : WireReader ε α} {f : α → WireReader ε β} {cost' : β → Nat}
    (hx : Pays credit x cost) (hf : ∀ a, Pays (cost a) (f a) cost') :
    Pays credit (x >>= f) cost' := by
  intro b c rest run
  obtain ⟨a, u, hxa, hfa⟩ := Stateful.runFrom_bind_ok.mp run
  exact Nat.le_trans (hf a hfa) (hx hxa)

theorem Pays.blame {x : WireReader ε α} (h : Pays credit x cost) (word : ε → ε') :
    Pays credit (Stateful.blame word x) cost :=
  fun _ _ _ run => h (Stateful.runFrom_blame_ok.mp run)

theorem TakesAtLeast.pays {x : WireReader ε α} (h : TakesAtLeast k x) (credit : Nat) :
    Pays credit x fun _ => credit + k := by
  intro b a rest run
  have := h run
  show credit + k + rest.length ≤ credit + b.length
  omega

theorem pays_take (credit n : Nat) : Pays credit (take n) fun piece => credit + piece.length := by
  intro b piece rest run
  unfold take at run
  simp only [Stateful.runFrom_bind, Stateful.runFrom_get] at run
  split at run
  · simp only [Stateful.runFrom_bind, Stateful.runFrom_set, Stateful.runFrom_pure, Prod.mk.injEq,
      Except.ok.injEq] at run
    obtain ⟨rfl, rfl⟩ := run
    have hlength : (b.take n).length + (b.drop n).length = b.length := by
      rw [← List.length_append, List.take_append_drop]
    show credit + (b.take n).length + (b.drop n).length ≤ credit + b.length
    omega
  · simp at run

/-- If every step pays for what it adds, so do all of them together. -/
theorem le_of_foldToEnd {step : σ → WireReader ε σ} {takes : ∀ s, TakesAtLeast 1 (step s)}
    {s s' : σ} {cost : σ → Nat} (hstep : ∀ s, Pays (cost s) (step s) cost)
    (h : foldToEnd step takes s b = .ok s') : cost s' ≤ cost s + b.length := by
  fun_induction foldToEnd step takes s b with
  | case1 s b hempty =>
    cases h
    exact Nat.le_add_right _ _
  | case2 s b hempty next rest hread ih => exact Nat.le_trans (ih h) (hstep s hread)
  | case3 => cases h

end WireReader

/-! ## Values on the wire -/

namespace WireValue

/-- How many values a value on the wire can pay for. -/
def worth : WireValue → Nat
  | varint _ | fixed64 _ | fixed32 _ => 1
  | delimited b => b.length + 1

theorem worth_pos (w : WireValue) : 1 ≤ w.worth := by
  cases w <;> exact Nat.le_add_left _ _

theorem pays_read (credit : Nat) (field : String) (t : WireType) :
    Pays credit (read field t) fun w => credit + w.worth := by
  have hvarint := (Varint.takesAtLeast_read.blame PayloadError.wire).pays credit
  have hfixed (n : Nat) (hn : 1 ≤ n) : Pays credit (takeFor field n) fun _ => credit + 1 :=
    (((takesAtLeast_take n).blame _).mono hn).pays credit
  cases t with
  | varint => exact hvarint.bind fun _ => pays_pure (Nat.le_refl _)
  | fixed64 => exact (hfixed 8 (by decide)).bind fun _ => pays_pure (Nat.le_refl _)
  | fixed32 => exact (hfixed 4 (by decide)).bind fun _ => pays_pure (Nat.le_refl _)
  | delimited =>
    refine hvarint.bind fun n => ((pays_take _ n.toNat).blame _).bind fun b => pays_pure ?_
    rw [worth]
    omega
  | groupStart | groupEnd =>
    intro b w rest run
    cases run

end WireValue

/-! ## Records -/

namespace RecordDecoder

variable {nested : RecordDecoder} {schema : Schema} {type : RecordType} {fields fields' : Fields}
  {field : FieldDecl} {t item : FieldType} {v : FieldValue} {w : WireValue}
  {items : List FieldValue} {b : Bytes}

/-- The decoder finds no more values in a record than the record has bytes. -/
def Thrifty (nested : RecordDecoder) : Prop :=
  ∀ type b fields, nested type b = .ok fields → fields.nodes ≤ b.length

theorem nodes_value_le (hnested : nested.Thrifty) (h : nested.value t w = .ok v) :
    v.nodes ≤ w.worth := by
  unfold value at h
  split at h
  · rename_i type b
    obtain ⟨fields, hfields, h⟩ := bind_ok.mp h
    cases h
    have hle := hnested type b fields hfields
    rw [FieldValue.nodes, WireValue.worth, Nat.add_comm]
    exact Nat.succ_le_succ hle
  · cases h
    rw [Scalar.nodes_value]
    exact w.worth_pos

theorem pays_packedItem (field : String) (scalar : Scalar) (packing : WireType)
    (seen : List FieldValue) :
    Pays (FieldValue.itemNodes seen) (packedItem field scalar packing seen)
      FieldValue.itemNodes := by
  refine (WireValue.pays_read _ field packing).bind fun w => pays_pure ?_
  rw [FieldValue.itemNodes, Scalar.nodes_value, Nat.add_comm]
  exact Nat.add_le_add_left w.worth_pos _

theorem itemNodes_packedItems_le {field : String} {scalar : Scalar} {packing : WireType}
    (h : packedItems field scalar packing b = .ok items) :
    FieldValue.itemNodes items ≤ b.length := by
  rw [packedItems, map_eq_pure_bind, bind_ok] at h
  obtain ⟨seen, hseen, h⟩ := h
  cases h
  rw [FieldValue.itemNodes_reverse]
  simpa [FieldValue.itemNodes] using le_of_foldToEnd (pays_packedItem field scalar packing) hseen

theorem itemNodes_items_le (hnested : nested.Thrifty) {field : String}
    (h : nested.items field item w = .ok items) : FieldValue.itemNodes items ≤ w.worth := by
  unfold RecordDecoder.items at h
  split at h
  · exact Nat.le_succ_of_le (itemNodes_packedItems_le h)
  · obtain ⟨v, hv, h⟩ := bind_ok.mp h
    cases h
    exact nodes_value_le hnested hv

/-- The byte of a key pays for an array that was not there before. -/
theorem nodes_update_le (hnested : nested.Thrifty)
    (h : nested.update schema fields field w = .ok fields') :
    fields'.nodes ≤ fields.nodes + 1 + w.worth := by
  unfold update at h
  split at h
  · obtain ⟨items, hitems, h⟩ := bind_ok.mp h
    cases h
    exact Nat.le_trans (fields.nodes_extend_le field.name items)
      (Nat.add_le_add_left (itemNodes_items_le hnested hitems) _)
  · obtain ⟨v, hv, h⟩ := bind_ok.mp h
    cases h
    have hinsert := fields.nodes_insert_le field.name v
    have hvalue := nodes_value_le hnested hv
    omega

theorem pays_readField (hnested : nested.Thrifty) (schema : Schema) (type : RecordType)
    (fields : Fields) :
    Pays fields.nodes (nested.readField schema type fields) Fields.nodes := by
  refine ((WireKey.takesAtLeast_read.blame _).pays _).bind fun key => ?_
  split
  · exact (((Wire.takesAtLeast_skip key).blame _).pays _).bind fun _ =>
      pays_pure (Nat.le_succ _)
  · rename_i field _
    exact (WireValue.pays_read _ field.name key.wireType).bind fun w =>
      pays_done fun _ hupdate => nodes_update_le hnested hupdate

theorem thrifty_around (hnested : nested.Thrifty) (schema : Schema) :
    (nested.around schema).Thrifty := by
  intro type b fields h
  have hle := le_of_foldToEnd (pays_readField hnested schema type) h
  simpa [Fields.nodes, FieldValue.memberNodes] using hle

theorem thrifty_within (schema : Schema) (limit levels : Nat) :
    (within schema limit levels).Thrifty := by
  induction levels with
  | zero =>
    intro type b fields h
    cases h
  | succ levels ih => exact thrifty_around ih schema

end RecordDecoder

/-- However a payload is put together, it is read as no more values, counted at every level, than it
has bytes. -/
theorem PayloadDecoder.wire_nodes_le {limit : Nat} {schema : Schema} {type : RecordType}
    {payload : Bytes} {fields : Fields} (h : wire limit schema type payload = .ok fields) :
    fields.nodes ≤ payload.length :=
  RecordDecoder.thrifty_within schema limit (limit + 1) type payload fields h

/-- A record in a record, and numbers that stand together; and one number in an array of its own,
which leaves no byte over. -/
theorem PayloadDecoder.wire_nodes_le_tight :
    let entity : RecordType :=
      { name := "Entity"
        fields := [{ name := "Parent", type := "Entity" }, { name := "Codes", type := "uint[]" }] }
    let schema : Schema := { composites := [entity] }
    let deep : Fields :=
      [("Parent", .object [("Codes", .array [.uint 5])]), ("Codes", .array [.uint 6, .uint 7])]
    let flat : Fields := [("Codes", .array [.uint 5])]
    (wire 1 schema entity [0x0a, 2, 0x10, 5, 0x12, 2, 6, 7] = .ok deep ∧ deep.nodes ≤ 8) ∧
      wire 1 schema entity [0x10, 5] = .ok flat ∧ flat.nodes = 2 := by
  intro entity schema deep flat
  have hdeep : wire 1 schema entity [0x0a, 2, 0x10, 5, 0x12, 2, 6, 7] = .ok deep := by
    with_unfolding_all rfl
  have hflat : wire 1 schema entity [0x10, 5] = .ok flat := by with_unfolding_all rfl
  exact ⟨⟨hdeep, wire_nodes_le hdeep⟩, hflat, rfl⟩

end Utxo
