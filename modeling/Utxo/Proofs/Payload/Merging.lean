import Utxo.Payload.Value
import Utxo.Schema.FieldType

/-!
# Fields updated by more fields

Items come behind the items that an array has, and every other value takes the place of the one that
is there. It makes no difference whether fields are updated one by one or all at once.
-/

namespace Utxo

namespace Fields

variable {schema : Schema} {type : RecordType} {fields before : Fields} {name other : String}
  {v w : FieldValue} {items more : List FieldValue}

/-- A value comes behind those that the fields have: the items of an array follow the items that are
there, and anything else takes the place of an earlier value. -/
def put (schema : Schema) (type : RecordType) (fields : Fields) : String × FieldValue → Fields
  | (name, v) =>
    match FieldType.ofField? schema type name, v with
    | some (.array _), .array items => fields.extend name items
    | _, v => fields.insert name v

/-- The fields, updated by more of them. -/
def merge (schema : Schema) (type : RecordType) (before after : Fields) : Fields :=
  after.foldl (put schema type) before

/-- What a field has once `v` has come behind what it had. -/
def joined (schema : Schema) (type : RecordType) (name : String) (old : Option FieldValue)
    (v : FieldValue) : FieldValue :=
  match FieldType.ofField? schema type name, v with
  | some (.array _), .array items =>
    match old with
    | some (.array before) => .array (before ++ items)
    | _ => .array items
  | _, v => v

/-- A field that is declared as an array has an array. -/
def Suits (schema : Schema) (type : RecordType) (entry : String × FieldValue) : Prop :=
  ∀ item, FieldType.ofField? schema type entry.1 = some (.array item) →
    ∃ items, entry.2 = .array items

structure Regular (schema : Schema) (type : RecordType) (fields : Fields) : Prop where
  nodup : (fields.map Prod.fst).Nodup
  suits : ∀ entry ∈ fields, Suits schema type entry

/-! ## Giving a field a value -/

theorem insert_insert : (fields.insert name v).insert name w = fields.insert name w := by
  induction fields with
  | nil => simp [insert]
  | cons entry rest ih =>
    obtain ⟨n, u⟩ := entry
    by_cases hn : n = name
    · simp [insert, hn]
    · simp [insert, hn, ih]

/-- A field that is there keeps its place, so it may as well get its value first. -/
theorem insert_comm (hne : other ≠ name) (hname : name ∈ fields.map Prod.fst) :
    (fields.insert other w).insert name v = (fields.insert name v).insert other w := by
  induction fields with
  | nil => simp at hname
  | cons entry rest ih =>
    obtain ⟨n, u⟩ := entry
    by_cases hn : n = name
    · subst hn
      simp [insert, hne.symm]
    · have hrest : name ∈ rest.map Prod.fst := by simpa [Ne.symm hn] using hname
      by_cases hother : n = other
      · simp [insert, hother, hne]
      · simp [insert, hn, hother, ih hrest]

theorem mem_of_get? (h : fields.get? name = some v) : (name, v) ∈ fields := by
  obtain ⟨before, after, rfl, -⟩ := List.lookup_eq_some_iff.mp h
  exact List.mem_append_right _ List.mem_cons_self

theorem mem_insert {entry : String × FieldValue} (h : entry ∈ fields.insert name v) :
    entry = (name, v) ∨ entry ∈ fields := by
  induction fields with
  | nil => exact .inl (List.mem_singleton.mp h)
  | cons first rest ih =>
    obtain ⟨n, u⟩ := first
    rw [insert] at h
    split at h
    · rename_i hn
      rcases List.mem_cons.mp h with rfl | h
      · exact .inl (by rw [hn])
      · exact .inr (List.mem_cons_of_mem _ h)
    · rcases List.mem_cons.mp h with rfl | h
      · exact .inr List.mem_cons_self
      · exact (ih h).imp_right (List.mem_cons_of_mem _)

theorem mem_names_insert : other ∈ (fields.insert name v).map Prod.fst ↔
    other = name ∨ other ∈ fields.map Prod.fst := by
  rw [names_insert, List.mem_append]
  by_cases h : name ∈ fields.map Prod.fst
  · rw [if_pos h]
    constructor
    · rintro (hother | hother)
      · exact .inr hother
      · cases hother
    · rintro (rfl | hother)
      · exact .inl h
      · exact .inl hother
  · rw [if_neg h, List.mem_singleton, or_comm]

theorem nodup_insert (h : (fields.map Prod.fst).Nodup) :
    ((fields.insert name v).map Prod.fst).Nodup := by
  rw [names_insert]
  by_cases hname : name ∈ fields.map Prod.fst
  · rwa [if_pos hname, List.append_nil]
  · rw [if_neg hname, List.nodup_append]
    refine ⟨h, List.nodup_cons.mpr ⟨nofun, List.nodup_nil⟩, ?_⟩
    rintro _ hmem _ hlast rfl
    exact hname (List.mem_singleton.mp hlast ▸ hmem)

/-! ## Adding items -/

/-- The items that a field has so far; none if it has no array. -/
def itemsOf (fields : Fields) (name : String) : List FieldValue :=
  match fields.get? name with
  | some (.array items) => items
  | _ => []

theorem extend_eq_insert :
    fields.extend name items = fields.insert name (.array (fields.itemsOf name ++ items)) := by
  unfold extend itemsOf
  cases fields.get? name with
  | none => rfl
  | some v => cases v <;> rfl

theorem itemsOf_insert : (fields.insert name (.array items)).itemsOf name = items := by
  rw [itemsOf, get?_insert, if_pos rfl]

theorem extend_extend :
    (fields.extend name items).extend name more = fields.extend name (items ++ more) := by
  rw [extend_eq_insert, extend_eq_insert, itemsOf_insert, insert_insert, extend_eq_insert,
    List.append_assoc]

/-! ## Joining values -/

theorem put_eq_insert :
    fields.put schema type (name, v) =
      fields.insert name (joined schema type name (fields.get? name) v) := by
  unfold put joined extend
  dsimp only
  cases FieldType.ofField? schema type name with
  | none => rfl
  | some t =>
    cases t with
    | array item =>
      cases v with
      | array items =>
        cases fields.get? name with
        | none => rfl
        | some old => cases old <;> rfl
      | _ => rfl
    | _ => rfl

theorem joined_none : joined schema type name none v = v := by
  unfold joined
  cases FieldType.ofField? schema type name with
  | none => rfl
  | some t => cases t <;> cases v <;> rfl

theorem joined_assoc (old : Option FieldValue) (h : Suits schema type (name, v)) :
    joined schema type name (some (joined schema type name old v)) w =
      joined schema type name old (joined schema type name (some v) w) := by
  unfold joined
  cases htype : FieldType.ofField? schema type name with
  | none => rfl
  | some t =>
    cases t with
    | simple name => rfl
    | object type => rfl
    | array item =>
      obtain ⟨items, hv⟩ := h item htype
      obtain rfl : v = .array items := hv
      cases w with
      | array more =>
        cases old with
        | none => rfl
        | some old =>
          cases old with
          | array first => exact congrArg FieldValue.array (List.append_assoc first items more)
          | _ => rfl
      | _ => rfl

/-! ## Updating fields -/

theorem get?_put : (fields.put schema type (name, v)).get? other =
    if other = name then some (joined schema type name (fields.get? name) v)
    else fields.get? other := by
  rw [put_eq_insert, get?_insert]

theorem regular_nil : Regular schema type [] :=
  ⟨List.nodup_nil, fun _ h => absurd h List.not_mem_nil⟩

theorem Regular.put (h : fields.Regular schema type) (hsuits : Suits schema type (name, v)) :
    (fields.put schema type (name, v)).Regular schema type := by
  rw [put_eq_insert]
  refine ⟨nodup_insert h.nodup, fun entry hentry => ?_⟩
  rcases mem_insert hentry with rfl | hold
  · intro item hitem
    obtain ⟨items, hv⟩ := hsuits item hitem
    obtain rfl : v = .array items := hv
    unfold joined
    split
    · split <;> exact ⟨_, rfl⟩
    · exact ⟨items, rfl⟩
  · exact h.suits entry hold

theorem get?_merge_of_not_mem (hname : name ∉ fields.map Prod.fst) :
    (before.merge schema type fields).get? name = before.get? name := by
  induction fields generalizing before with
  | nil => rfl
  | cons entry rest ih =>
    obtain ⟨n, u⟩ := entry
    simp only [List.map_cons, List.mem_cons, not_or] at hname
    show ((before.put schema type (n, u)).merge schema type rest).get? name = _
    rw [ih hname.2, get?_put, if_neg hname.1]

/-- A field that is there gets a value after updates of other fields as it would before them. -/
theorem insert_merge (hname : name ∉ fields.map Prod.fst)
    (hbefore : name ∈ before.map Prod.fst) :
    (before.merge schema type fields).insert name v =
      (before.insert name v).merge schema type fields := by
  induction fields generalizing before with
  | nil => rfl
  | cons entry rest ih =>
    obtain ⟨n, u⟩ := entry
    simp only [List.map_cons, List.mem_cons, not_or] at hname
    have hget : (before.insert name v).get? n = before.get? n := by
      rw [get?_insert, if_neg (Ne.symm hname.1)]
    show ((before.put schema type (n, u)).merge schema type rest).insert name v =
      ((before.insert name v).put schema type (n, u)).merge schema type rest
    rw [put_eq_insert, put_eq_insert, hget, ← insert_comm (Ne.symm hname.1) hbefore]
    exact ih hname.2 (mem_names_insert.mpr (.inr hbefore))

/-- It makes no difference whether a value comes behind some fields before these update others, or
afterwards. -/
theorem merge_put (h : fields.Regular schema type) :
    before.merge schema type (fields.put schema type (name, v)) =
      (before.merge schema type fields).put schema type (name, v) := by
  induction fields generalizing before with
  | nil =>
    have hput : put schema type [] (name, v) = [(name, v)] := by
      rw [put_eq_insert, show get? [] name = none from rfl, joined_none]
      rfl
    rw [hput]
    rfl
  | cons entry rest ih =>
    obtain ⟨n, u⟩ := entry
    obtain ⟨hn, hnodup⟩ := List.nodup_cons.mp h.nodup
    obtain ⟨hu, hsuits⟩ := List.forall_mem_cons.mp h.suits
    rw [put_eq_insert]
    by_cases hname : n = name
    · -- The value joins the one that is there, and so it does behind the fields before.
      subst hname
      have hget : get? ((n, u) :: rest) n = some u := by simp [get?]
      rw [hget, insert, if_pos rfl]
      show (before.put schema type (n, joined schema type n (some u) v)).merge schema type rest =
        ((before.put schema type (n, u)).merge schema type rest).put schema type (n, v)
      have hthere : n ∈ (before.put schema type (n, u)).map Prod.fst := by
        rw [put_eq_insert, mem_names_insert]
        exact .inl rfl
      have hmerged : ((before.put schema type (n, u)).merge schema type rest).get? n =
          some (joined schema type n (before.get? n) u) := by
        rw [get?_merge_of_not_mem hn, get?_put, if_pos rfl]
      have hput : ((before.put schema type (n, u)).merge schema type rest).put schema type (n, v) =
          ((before.put schema type (n, u)).merge schema type rest).insert n
            (joined schema type n (before.get? n) (joined schema type n (some u) v)) := by
        rw [put_eq_insert, hmerged, joined_assoc _ hu]
      rw [hput, insert_merge hn hthere, put_eq_insert, put_eq_insert, insert_insert]
    · have hget : get? ((n, u) :: rest) name = get? rest name := by
        simp [get?, List.lookup_cons, beq_false_of_ne (Ne.symm hname)]
      rw [hget, insert, if_neg hname, ← put_eq_insert]
      exact ih ⟨hnodup, hsuits⟩

end Fields

end Utxo
