import Mathlib.Algebra.GroupWithZero.Nat
import Utxo.Proofs.Transaction.RoundTrip

/-!
# The shortest encoding of a transaction

Each count in an encoding stands in a form of its own. The main statement is that encoding again
what was decoded puts every count into its shortest form and changes nothing else.
-/

namespace Utxo.Transaction

open Reader CompactSize

namespace Forms

def width (forms : Forms) : Nat :=
  forms.inputCount.width + (forms.unlocking.map Form.width).sum +
    forms.outputCount.width + (forms.locking.map Form.width).sum

def shortest (tx : Transaction) : Forms where
  inputCount := .shortest tx.inputs.length
  unlocking := tx.unlockingLengths.map .shortest
  outputCount := .shortest tx.outputs.length
  locking := tx.lockingLengths.map .shortest

end Forms

variable {tx : Transaction} {forms : Forms}

/-! ## Forms of lists -/

section Lists

variable {α : Type} {encodeIn : Form → α → Bytes} {items : List α}

theorem flatMap_eq_shortest {encode : α → Bytes} {count : α → Nat}
    (h : ∀ item ∈ items, encode item = encodeIn (.shortest (count item)) item) :
    items.flatMap encode =
      (((items.map count).map Form.shortest).zipWith encodeIn items).flatten := by
  rw [List.flatMap_def, List.map_map, List.zipWith_map_left, List.zipWith_self,
    List.map_congr_left h]
  rfl

theorem length_zipWith {bare : α → Nat}
    (hlength : ∀ form item, (encodeIn form item).length = form.width + bare item)
    {forms : List Form} (h : forms.length = items.length) :
    (forms.zipWith encodeIn items).flatten.length =
      (forms.map Form.width).sum + (items.map bare).sum := by
  induction items generalizing forms with
  | nil => simp [List.eq_nil_of_length_eq_zero h]
  | cons item items ih =>
    cases forms with
    | nil => simp at h
    | cons form forms =>
      have hrest := @ih forms (by simpa using h)
      simp only [List.zipWith_cons_cons, List.flatten_cons, List.length_append, hlength, hrest,
        List.map_cons, List.sum_cons]
      omega

/-- No forms that fit take fewer bytes than the shortest ones, and only these take as few. -/
theorem sum_width_shortest {forms : List Form} {ns : List Nat}
    (h : List.Forall₂ Form.Fits forms ns) :
    ((ns.map Form.shortest).map Form.width).sum ≤ (forms.map Form.width).sum ∧
      (((ns.map Form.shortest).map Form.width).sum = (forms.map Form.width).sum →
        forms = ns.map Form.shortest) := by
  induction h with
  | nil => simp
  | @cons form n forms ns hfits _ ih =>
    have hshortest := Form.isShortest_shortest hfits.lt_size
    have hle := hshortest.2 form hfits
    simp only [List.map_cons, List.sum_cons]
    refine ⟨by omega, ?_⟩
    intro hsum
    -- No summand can be made up for by another one, so all of them are equal.
    have hform : form = .shortest n := Form.width_injective (by omega)
    rw [ih.2 (by omega), hform]

end Lists

theorem encode_eq_shortest (h : tx.Counted) : tx.encode = tx.encodeIn (.shortest tx) := by
  have hinputs : tx.inputs.flatMap TransactionInput.encode = _ :=
    flatMap_eq_shortest fun input hinput =>
      TransactionInput.encode_eq_shortest (h.unlocking input hinput)
  have houtputs : tx.outputs.flatMap TransactionOutput.encode = _ :=
    flatMap_eq_shortest fun output houtput =>
      TransactionOutput.encode_eq_shortest (h.locking output houtput)
  unfold encode encodeIn
  rw [hinputs, houtputs, CompactSize.encode_eq_shortest, CompactSize.encode_eq_shortest, ofLength,
    ofLength, UInt64.toNat_ofNat_of_lt' h.inputs, UInt64.toNat_ofNat_of_lt' h.outputs]
  rfl

/-- The size of all that is no count. -/
def bareLength (tx : Transaction) : Nat :=
  8 + (tx.unlockingLengths.map (40 + ·)).sum + (tx.lockingLengths.map (8 + ·)).sum

theorem length_encodeIn (h : forms.All Form.Fits tx) :
    (tx.encodeIn forms).length = forms.width + tx.bareLength := by
  have hunlocking : forms.unlocking.length = tx.inputs.length := by
    simpa [unlockingLengths] using h.unlocking.length_eq
  have hlocking : forms.locking.length = tx.outputs.length := by
    simpa [lockingLengths] using h.locking.length_eq
  have hinputs := length_zipWith TransactionInput.length_encodeIn hunlocking
  have houtputs := length_zipWith TransactionOutput.length_encodeIn hlocking
  unfold encodeIn Forms.width bareLength unlockingLengths lockingLengths
  simp only [List.length_append, Form.length_encode, hinputs, houtputs,
    Bytes.length_ofUInt32, List.map_map, Function.comp_def]
  omega

theorem forall₂_isShortest_iff {forms : List Form} {ns : List Nat}
    (h : ∀ n ∈ ns, n < UInt64.size) :
    List.Forall₂ Form.IsShortest forms ns ↔ forms = ns.map .shortest := by
  induction ns generalizing forms with
  | nil => simp
  | cons n ns ih =>
    obtain ⟨hn, hns⟩ := List.forall_mem_cons.mp h
    rw [List.forall₂_cons_right_iff, List.map_cons]
    constructor
    · rintro ⟨form, rest, hform, hrest, rfl⟩
      rw [hform.eq_shortest, (ih hns).mp hrest]
    · rintro rfl
      exact ⟨_, _, Form.isShortest_shortest hn, (ih hns).mpr rfl, rfl⟩

theorem Forms.all_isShortest_iff (h : tx.Counted) :
    forms.All Form.IsShortest tx ↔ forms = .shortest tx := by
  have hunlocking : ∀ n ∈ tx.unlockingLengths, n < UInt64.size := by
    unfold unlockingLengths
    rw [List.forall_mem_map]
    exact h.unlocking
  have hlocking : ∀ n ∈ tx.lockingLengths, n < UInt64.size := by
    unfold lockingLengths
    rw [List.forall_mem_map]
    exact h.locking
  constructor
  · intro hall
    rcases forms with ⟨inputCount, unlocking, outputCount, locking⟩
    rw [shortest, ← hall.inputCount.eq_shortest, ← hall.outputCount.eq_shortest,
      ← (forall₂_isShortest_iff hunlocking).mp hall.unlocking,
      ← (forall₂_isShortest_iff hlocking).mp hall.locking]
  · rintro rfl
    exact ⟨Form.isShortest_shortest h.inputs, (forall₂_isShortest_iff hunlocking).mpr rfl,
      Form.isShortest_shortest h.outputs, (forall₂_isShortest_iff hlocking).mpr rfl⟩

theorem Forms.all_fits_shortest (h : tx.Counted) : (Forms.shortest tx).All Form.Fits tx := by
  obtain ⟨hn, hunlocking, hm, hlocking⟩ := (all_isShortest_iff h).mpr rfl
  exact ⟨hn.1, hunlocking.imp fun _ _ h => h.1, hm.1, hlocking.imp fun _ _ h => h.1⟩

/-! ## Comparing encodings -/

theorem Forms.width_shortest (h : forms.All Form.Fits tx) :
    (shortest tx).width ≤ forms.width ∧
      ((shortest tx).width = forms.width → forms = shortest tx) := by
  have hcounted := h.counted
  have hn := (Form.isShortest_shortest hcounted.inputs).2 _ h.inputCount
  have hm := (Form.isShortest_shortest hcounted.outputs).2 _ h.outputCount
  have hunlocking := sum_width_shortest h.unlocking
  have hlocking := sum_width_shortest h.locking
  unfold width
  simp only [shortest] at *
  refine ⟨by omega, ?_⟩
  intro hwidth
  rcases forms with ⟨inputCount, unlocking, outputCount, locking⟩
  simp only at *
  have hinputCount : inputCount = .shortest tx.inputs.length := Form.width_injective (by omega)
  have houtputCount : outputCount = .shortest tx.outputs.length := Form.width_injective (by omega)
  rw [hunlocking.2 (by omega), hlocking.2 (by omega), hinputCount, houtputCount]

section Spelled

variable {raw : Bytes} (h : tx.Spelled forms raw)
include h

theorem Spelled.length_encode_le : tx.encode.length ≤ raw.length := by
  obtain ⟨hfits, rfl⟩ := h
  have hcounted := hfits.counted
  have hwidth := (Forms.width_shortest hfits).1
  rw [encode_eq_shortest hcounted, length_encodeIn hfits,
    length_encodeIn (Forms.all_fits_shortest hcounted)]
  omega

theorem Spelled.eq_shortest (hlength : tx.encode.length = raw.length) : forms = .shortest tx := by
  obtain ⟨hfits, rfl⟩ := h
  have hcounted := hfits.counted
  rw [encode_eq_shortest hcounted, length_encodeIn hfits,
    length_encodeIn (Forms.all_fits_shortest hcounted)] at hlength
  exact (Forms.width_shortest hfits).2 (by omega)

theorem Spelled.encode_eq (hforms : forms = .shortest tx) : tx.encode = raw := by
  obtain ⟨hfits, rfl⟩ := h
  rw [encode_eq_shortest hfits.counted, hforms]

theorem Spelled.encode_eq_iff : tx.encode = raw ↔ forms.All Form.IsShortest tx := by
  rw [Forms.all_isShortest_iff h.1.counted]
  exact ⟨fun hencode => h.eq_shortest (congrArg List.length hencode), h.encode_eq⟩

theorem Spelled.length_encode_eq_iff : tx.encode.length = raw.length ↔ tx.encode = raw :=
  ⟨fun hlength => h.encode_eq (h.eq_shortest hlength), congrArg List.length⟩

end Spelled

theorem encode_unplaced (tx : Transaction) : tx.unplaced.encode = tx.encode := by
  simp only [encode, unplaced, ofLength, List.length_map, List.flatMap_map]
  rfl

/-- What is decoded was spelled in some forms. Encoding it again spells the same transaction in the
shortest forms; the bytes change, and become fewer, unless these are the forms they had. -/
theorem decode_normal_form {raw : Bytes} (h : decode raw = .ok tx) :
    (∃ forms, tx.Spelled forms raw) ∧
    (∀ forms, tx.Spelled forms raw → (tx.encode = raw ↔ forms.All Form.IsShortest tx)) ∧
    tx.encode.length ≤ raw.length ∧
    (tx.encode.length = raw.length ↔ tx.encode = raw) ∧
    ∃ back, decode tx.encode = .ok back ∧ back.unplaced = tx.unplaced ∧
      back.encode = tx.encode := by
  obtain ⟨forms, hspelled⟩ := spelled_of_decode h
  obtain ⟨back, hback, hsame⟩ :=
    decode_encode (scriptsDecoded_of_read (decode_ok h)) hspelled.1.counted
  refine ⟨⟨forms, hspelled⟩, fun _ h => h.encode_eq_iff, hspelled.length_encode_le,
    hspelled.length_encode_eq_iff, back, hback, hsame, ?_⟩
  rw [← encode_unplaced, hsame, encode_unplaced]

/-- The number of inputs takes three bytes here and the length of the broken script five, where
one would do for each. -/
theorem decode_normal_form_wide :
    let raw : Bytes := [1, 0, 0, 0, 0xfd, 1, 0] ++ List.replicate 36 7 ++
      [0xfe, 2, 0, 0, 0, 0x51, 0x05] ++ [0xff, 0xff, 0xff, 0xff] ++ [0] ++ [0, 0, 0, 0]
    let tx : Transaction :=
      { inputs := [{ outpoint := ⟨⟨List.replicate 32 7, rfl⟩, 0x07070707⟩
                     unlocking := .decode [0x51, 0x05]
                     range := ⟨7, 54⟩ }]
        range := ⟨0, 59⟩ }
    decode raw = .ok tx ∧ tx.encode.length + 6 = raw.length ∧
      (∀ forms, tx.Spelled forms raw → ¬ forms.All Form.IsShortest tx) ∧
      ∃ back, decode tx.encode = .ok back ∧ back.unplaced = tx.unplaced ∧
        back.encode = tx.encode := by
  intro raw tx
  have hdecode : decode raw = .ok tx := rfl
  have hlength : tx.encode.length + 6 = raw.length := by decide +kernel
  obtain ⟨-, hiff, -, -, hback⟩ := decode_normal_form hdecode
  refine ⟨hdecode, hlength, ?_, hback⟩
  intro forms hspelled hshortest
  rw [← (hiff forms hspelled).mpr hshortest] at hlength
  omega

end Utxo.Transaction
