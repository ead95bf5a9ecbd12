import Mathlib.Logic.Function.Basic
import Utxo.Proofs.Bytes.Forms

/-!
# Encodings that show where they end

If the bytes of one item tell where the next one starts, then items in a row can be told apart
without a count in front of them.
-/

namespace Utxo

/-- What starts with the encoding of a valid item starts with that of no other one, and shows what
comes behind. -/
structure SelfDelimiting {α : Type} (valid : α → Prop) (encode : α → Bytes) : Prop where
  nonempty : ∀ a, encode a ≠ []
  split : ∀ a b x y, valid a → valid b → encode a ++ x = encode b ++ y → a = b ∧ x = y

namespace SelfDelimiting

variable {α : Type} {valid : α → Prop} {encode : α → Bytes}

theorem of_length {n : Nat} (hn : 0 < n) (hlength : ∀ a, (encode a).length = n)
    (hinj : Function.Injective encode) : SelfDelimiting (fun _ => True) encode := by
  constructor
  · intro a
    apply List.ne_nil_of_length_pos
    rwa [hlength]
  · intro a b x y _ _ h
    obtain ⟨hab, hxy⟩ := List.append_inj h (by rw [hlength, hlength])
    exact ⟨hinj hab, hxy⟩

theorem flatMap_inj {ι : Type} {view : ι → α} {items others : List ι}
    (hencode : SelfDelimiting valid encode) (hitems : ∀ item ∈ items, valid (view item))
    (hothers : ∀ other ∈ others, valid (view other))
    (h : (items.flatMap fun item => encode (view item)) =
      others.flatMap fun other => encode (view other)) : items.map view = others.map view := by
  induction items generalizing others with
  | nil =>
    cases others with
    | nil => rfl
    | cons other others => simp [hencode.nonempty] at h
  | cons item items ih =>
    cases others with
    | nil => simp [hencode.nonempty] at h
    | cons other others =>
      rw [List.forall_mem_cons] at hitems hothers
      rw [List.flatMap_cons, List.flatMap_cons] at h
      obtain ⟨hitem, hrest⟩ := hencode.split _ _ _ _ hitems.1 hothers.1 h
      rw [List.map_cons, List.map_cons, hitem, ih hitems.2 hothers.2 hrest]

/-- If the counts are known to be equal, anything may come behind the items. -/
theorem flatMap_split {ι : Type} {view : ι → α} {items others : List ι} {x y : Bytes}
    (hencode : SelfDelimiting valid encode) (hitems : ∀ item ∈ items, valid (view item))
    (hothers : ∀ other ∈ others, valid (view other)) (hlength : items.length = others.length)
    (h : (items.flatMap fun item => encode (view item)) ++ x =
      (others.flatMap fun other => encode (view other)) ++ y) :
    items.map view = others.map view ∧ x = y := by
  induction items generalizing others with
  | nil =>
    cases others with
    | nil => exact ⟨rfl, h⟩
    | cons other others => simp at hlength
  | cons item items ih =>
    cases others with
    | nil => simp at hlength
    | cons other others =>
      rw [List.forall_mem_cons] at hitems hothers
      rw [List.flatMap_cons, List.flatMap_cons, List.append_assoc, List.append_assoc] at h
      obtain ⟨hitem, hrest⟩ := hencode.split _ _ _ _ hitems.1 hothers.1 h
      obtain ⟨hviews, hxy⟩ := ih hitems.2 hothers.2 (by simpa using hlength) hrest
      exact ⟨by rw [List.map_cons, List.map_cons, hitem, hviews], hxy⟩

/-- A field of a fixed width may stand before what shows its own end. -/
theorem prod {β : Type} {field : β → Bytes} {n : Nat} (hfield : ∀ b, (field b).length = n)
    (hinj : Function.Injective field) (hencode : SelfDelimiting valid encode) :
    SelfDelimiting (fun p : β × α => valid p.2) (fun p => field p.1 ++ encode p.2) := by
  constructor
  · intro p
    simp [hencode.nonempty]
  · rintro ⟨b, a⟩ ⟨b', a'⟩ x y ha ha' h
    simp only [List.append_assoc] at h
    obtain ⟨hb, hrest⟩ := List.append_inj h (by rw [hfield, hfield])
    obtain ⟨rfl, hxy⟩ := hencode.split _ _ _ _ ha ha' hrest
    exact ⟨by rw [hinj hb], hxy⟩

/-- It may stand behind that, too. -/
theorem prod_field {β : Type} {field : β → Bytes} {n : Nat} (hencode : SelfDelimiting valid encode)
    (hfield : ∀ b, (field b).length = n) (hinj : Function.Injective field) :
    SelfDelimiting (fun p : α × β => valid p.1) (fun p => encode p.1 ++ field p.2) := by
  constructor
  · intro p
    simp [hencode.nonempty]
  · rintro ⟨a, b⟩ ⟨a', b'⟩ x y ha ha' h
    simp only [List.append_assoc] at h
    obtain ⟨rfl, hrest⟩ := hencode.split _ _ _ _ ha ha' h
    obtain ⟨hb, hxy⟩ := List.append_inj hrest (by rw [hfield, hfield])
    exact ⟨by rw [hinj hb], hxy⟩

end SelfDelimiting

/-! ## Numbers -/

theorem Bytes.ofUInt32_injective : Function.Injective ofUInt32 := by
  intro v w h
  have hnat := congrArg toNatLE h
  unfold ofUInt32 at hnat
  rw [toNatLE_ofNatLE_of_lt v.toNat_lt, toNatLE_ofNatLE_of_lt w.toNat_lt] at hnat
  exact UInt32.toNat_inj.mp hnat

theorem Bytes.ofUInt64_injective : Function.Injective ofUInt64 := by
  intro v w h
  have hnat := congrArg toNatLE h
  unfold ofUInt64 at hnat
  rw [toNatLE_ofNatLE_of_lt v.toNat_lt, toNatLE_ofNatLE_of_lt w.toNat_lt] at hnat
  exact UInt64.toNat_inj.mp hnat

/-! ## Frames -/

namespace CompactSize

theorem selfDelimiting_encode : SelfDelimiting (fun _ => True) encode := by
  constructor
  · intro v
    rw [encode_eq_shortest]
    apply List.ne_nil_of_length_pos
    rw [Form.length_encode]
    cases Form.shortest v.toNat <;> decide
  · intro v w x y _ _ h
    rw [encode_eq_shortest, encode_eq_shortest] at h
    have hv := (Form.isShortest_shortest v.toNat_lt).1
    have hw := (Form.isShortest_shortest w.toNat_lt).1
    obtain ⟨-, hvalue, hrest⟩ := Form.encode_append_inj hv hw h
    exact ⟨UInt64.toNat_inj.mp hvalue, hrest⟩

theorem frame_injective : Function.Injective frame := by
  intro a b h
  exact (selfDelimiting_encode.split _ _ _ _ trivial trivial h).2

theorem length_eq_of_ofLength {α β : Type} {items : List α} {others : List β}
    (hitems : items.length < UInt64.size) (hothers : others.length < UInt64.size)
    (h : ofLength items = ofLength others) : items.length = others.length := by
  have hnat := congrArg UInt64.toNat h
  rwa [ofLength, ofLength, UInt64.toNat_ofNat_of_lt' hitems, UInt64.toNat_ofNat_of_lt' hothers]
    at hnat

theorem selfDelimiting_frame :
    SelfDelimiting (fun b : Bytes => b.length < UInt64.size) frame := by
  constructor
  · intro b
    simp [frame, selfDelimiting_encode.nonempty]
  · intro a b x y ha hb h
    rw [frame, frame, List.append_assoc, List.append_assoc] at h
    obtain ⟨hcount, hrest⟩ := selfDelimiting_encode.split _ _ _ _ trivial trivial h
    exact List.append_inj hrest (length_eq_of_ofLength ha hb hcount)

end CompactSize

end Utxo
