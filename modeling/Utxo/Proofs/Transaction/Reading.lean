import Mathlib.Data.List.Forall2
import Utxo.Proofs.Bytes.Forms
import Utxo.Proofs.Script.Decoding
import Utxo.Transaction.Encoding

/-!
# What is read as a transaction

The counts in front of lists and scripts may stand in any form. The main lemmas say what bytes a
part was read from, and that the same bytes are read as the same part wherever they stand.
-/

namespace Utxo

/-! ## What reading can give back -/

/-- The input without its place in a source. -/
def TransactionInput.unplaced (input : TransactionInput) : TransactionInput :=
  { input with range := {} }

def TransactionOutput.unplaced (output : TransactionOutput) : TransactionOutput :=
  { output with range := {} }

/-- The transaction without any places in a source. -/
def Transaction.unplaced (tx : Transaction) : Transaction :=
  { tx with
    inputs := tx.inputs.map TransactionInput.unplaced
    outputs := tx.outputs.map TransactionOutput.unplaced
    range := {} }

/-- The script is what its own bytes are decoded to. -/
def Script.IsDecoded (s : Script) : Prop := Script.decode s.encode = s

theorem Script.isDecoded_decode (b : Bytes) : (decode b).IsDecoded :=
  congrArg decode (encode_decode b)

/-- The length of the script is a number of 64 bits. -/
def Script.IsCounted (s : Script) : Prop := s.encode.length < UInt64.size

structure Transaction.ScriptsDecoded (tx : Transaction) : Prop where
  unlocking : ∀ input ∈ tx.inputs, input.unlocking.IsDecoded
  locking : ∀ output ∈ tx.outputs, output.locking.IsDecoded

/-- Every list and every script is short enough for the 64 bits of the count in front of it, as
everything is that fits into memory. -/
structure Transaction.Counted (tx : Transaction) : Prop where
  inputs : tx.inputs.length < UInt64.size
  outputs : tx.outputs.length < UInt64.size
  unlocking : ∀ input ∈ tx.inputs, input.unlocking.IsCounted
  locking : ∀ output ∈ tx.outputs, output.locking.IsCounted

/-! ## Steps of a reader -/

open Reader CompactSize

variable {c c' : Cursor}

theorem Reader.runFrom_position {ε : Type} (c : Cursor) :
    (Reader.position (ε := ε)).runFrom c = (.ok c.position, c) := rfl

theorem TransactionPart.reading_ok {α : Type} (part : TransactionPart)
    {reader : Reader Truncated α} {a : α} :
    (part.reading reader).runFrom c = (.ok a, c') ↔ reader.runFrom c = (.ok a, c') := by
  rw [reading, Stateful.runFrom_blame]
  rcases reader.runFrom c with ⟨_ | _, _⟩ <;> simp

theorem TransactionPart.reading_of_ok {α : Type} (part : TransactionPart)
    {reader : Reader Truncated α} {a : α} (h : reader.runFrom c = (.ok a, c')) :
    (part.reading reader).runFrom c = (.ok a, c') := part.reading_ok.mpr h

section Lists

variable {ε α : Type} {reader : Reader ε α} {items : List α}

/-- Each of the items was read from bytes in some form. -/
theorem Reader.Reads.exists_forms {fits : Form → α → Prop} {encodeIn : Form → α → Bytes}
    (hread : ∀ c item c', reader.runFrom c = (.ok item, c') →
      ∃ form, fits form item ∧ Takes c (encodeIn form item) c')
    (h : Reads reader c items c') :
    ∃ forms, List.Forall₂ fits forms items ∧
      Takes c (forms.zipWith encodeIn items).flatten c' := by
  induction items generalizing c with
  | nil => exact ⟨[], .nil, takes_nil_iff.mpr h⟩
  | cons item items ih =>
    obtain ⟨u, hitem, hrest⟩ := h
    obtain ⟨form, hfits, htakes⟩ := hread _ _ _ hitem
    obtain ⟨forms, hforms, hall⟩ := ih hrest
    exact ⟨form :: forms, .cons hfits hforms, htakes.trans hall⟩

end Lists

/-! ## Scripts, inputs and outputs -/

/-- The script behind its length, which is written in `form`. -/
def Script.frameIn (form : Form) (s : Script) : Bytes := form.encode s.encode.length ++ s.encode

theorem Script.frame_eq_shortest {s : Script} (h : s.IsCounted) :
    s.frame = s.frameIn (.shortest s.encode.length) := CompactSize.frame_eq_shortest h

theorem Script.read_of_form {s : Script} {form : Form} (hdecoded : s.IsDecoded)
    (hfits : form.Fits s.encode.length) (h : Takes c (s.frameIn form) c') :
    Script.read.runFrom c = (.ok s, c') := by
  rw [Script.read, Stateful.runFrom_bind_of_ok (readFrame_of_form hfits h), Stateful.runFrom_pure,
    hdecoded]

theorem Script.read_ok {s : Script} (h : Script.read.runFrom c = (.ok s, c')) :
    s.IsDecoded ∧ ∃ form : Form, form.Fits s.encode.length ∧ Takes c (s.frameIn form) c' := by
  obtain ⟨b, u, hb, h⟩ := Stateful.runFrom_bind_ok.mp h
  cases h
  refine ⟨isDecoded_decode b, ?_⟩
  unfold frameIn
  rw [encode_decode]
  exact readFrame_ok hb

namespace TransactionInput

def encodeIn (form : Form) (input : TransactionInput) : Bytes :=
  input.outpoint.encode ++ input.unlocking.frameIn form ++ Bytes.ofUInt32 input.sequence

theorem length_encodeIn (form : Form) (input : TransactionInput) :
    (input.encodeIn form).length = form.width + (40 + input.unlocking.encode.length) := by
  simp [encodeIn, Script.frameIn]
  omega

theorem encode_eq_shortest {input : TransactionInput} (h : input.unlocking.IsCounted) :
    input.encode = input.encodeIn (.shortest input.unlocking.encode.length) := by
  unfold encode encodeWith encodeIn
  rw [← Script.frame_eq_shortest h]
  rfl

theorem read_of_form {input : TransactionInput} {form : Form}
    (hdecoded : input.unlocking.IsDecoded) (hfits : form.Fits input.unlocking.encode.length)
    (h : Takes c (input.encodeIn form) c') :
    read.runFrom c = (.ok { input with range := ⟨c.position, c'.position⟩ }, c') := by
  obtain ⟨u₃, h, hsequence⟩ := Takes.split h
  obtain ⟨u₂, h, hscript⟩ := Takes.split h
  obtain ⟨u₁, hsource, hindex⟩ := Takes.split h
  have hsource' := fixed_of_takes input.outpoint.source.wire.property hsource
  have hscript' := Script.read_of_form hdecoded hfits hscript
  rw [read, Stateful.runFrom_bind_of_ok (Reader.runFrom_position c),
    Stateful.runFrom_bind_of_ok (TransactionPart.sourceId.reading_of_ok hsource'),
    Stateful.runFrom_bind_of_ok (TransactionPart.outputIndex.reading_of_ok (u32_of_takes hindex)),
    Stateful.runFrom_bind_of_ok (TransactionPart.unlockingScript.reading_of_ok hscript'),
    Stateful.runFrom_bind_of_ok
      (TransactionPart.sequenceNumber.reading_of_ok (u32_of_takes hsequence)),
    Stateful.runFrom_bind_of_ok (Reader.runFrom_position c'), Stateful.runFrom_pure]

theorem read_ok {input : TransactionInput} (h : read.runFrom c = (.ok input, c')) :
    input.unlocking.IsDecoded ∧ input.range = ⟨c.position, c'.position⟩ ∧
      ∃ form : Form, form.Fits input.unlocking.encode.length ∧
        Takes c (input.encodeIn form) c' := by
  unfold read at h
  simp only [Stateful.runFrom_bind_ok, TransactionPart.reading_ok, Reader.runFrom_position] at h
  obtain ⟨_, _, ⟨⟩, source, u₁, hsource, index, u₂, hindex, script, u₃, hscript, sequence, u₄,
    hsequence, _, _, ⟨⟩, ⟨⟩⟩ := h
  obtain ⟨hdecoded, form, hfits, htakes⟩ := Script.read_ok hscript
  refine ⟨hdecoded, rfl, form, hfits, ?_⟩
  exact (((fixed_ok hsource).trans (u32LE_ok hindex)).trans htakes).trans (u32LE_ok hsequence)

end TransactionInput

namespace TransactionOutput

def encodeIn (form : Form) (output : TransactionOutput) : Bytes :=
  Bytes.ofUInt64 output.satoshis ++ output.locking.frameIn form

theorem length_encodeIn (form : Form) (output : TransactionOutput) :
    (output.encodeIn form).length = form.width + (8 + output.locking.encode.length) := by
  simp [encodeIn, Script.frameIn]
  omega

theorem encode_eq_shortest {output : TransactionOutput} (h : output.locking.IsCounted) :
    output.encode = output.encodeIn (.shortest output.locking.encode.length) := by
  unfold encode encodeIn
  rw [← Script.frame_eq_shortest h]

theorem read_of_form {output : TransactionOutput} {form : Form}
    (hdecoded : output.locking.IsDecoded) (hfits : form.Fits output.locking.encode.length)
    (h : Takes c (output.encodeIn form) c') :
    read.runFrom c = (.ok { output with range := ⟨c.position, c'.position⟩ }, c') := by
  obtain ⟨u, hsatoshis, hscript⟩ := Takes.split h
  have hscript' := Script.read_of_form hdecoded hfits hscript
  rw [read, Stateful.runFrom_bind_of_ok (Reader.runFrom_position c),
    Stateful.runFrom_bind_of_ok (TransactionPart.satoshis.reading_of_ok (u64_of_takes hsatoshis)),
    Stateful.runFrom_bind_of_ok (TransactionPart.lockingScript.reading_of_ok hscript'),
    Stateful.runFrom_bind_of_ok (Reader.runFrom_position c'), Stateful.runFrom_pure]

theorem read_ok {output : TransactionOutput} (h : read.runFrom c = (.ok output, c')) :
    output.locking.IsDecoded ∧ output.range = ⟨c.position, c'.position⟩ ∧
      ∃ form : Form, form.Fits output.locking.encode.length ∧
        Takes c (output.encodeIn form) c' := by
  unfold read at h
  simp only [Stateful.runFrom_bind_ok, TransactionPart.reading_ok, Reader.runFrom_position] at h
  obtain ⟨_, _, ⟨⟩, satoshis, u₁, hsatoshis, script, u₂, hscript, _, _, ⟨⟩, ⟨⟩⟩ := h
  obtain ⟨hdecoded, form, hfits, htakes⟩ := Script.read_ok hscript
  exact ⟨hdecoded, rfl, form, hfits, (u64LE_ok hsatoshis).trans htakes⟩

end TransactionOutput

/-! ## Transactions -/

namespace Transaction

/-- The parts of a transaction, read one after another between the cursors `c` and `c'`. -/
theorem read_ok {tx : Transaction} (h : read.runFrom c = (.ok tx, c')) :
    tx.range = ⟨c.position, c'.position⟩ ∧
    tx.inputs.length < UInt64.size ∧ tx.outputs.length < UInt64.size ∧
    ∃ u₁ u₂ u₃ u₄ u₅ : Cursor,
      Reader.u32LE.runFrom c = (.ok tx.version, u₁) ∧
      CompactSize.read.runFrom u₁ = (.ok (ofLength tx.inputs), u₂) ∧
      Reads TransactionInput.read u₂ tx.inputs u₃ ∧
      CompactSize.read.runFrom u₃ = (.ok (ofLength tx.outputs), u₄) ∧
      Reads TransactionOutput.read u₄ tx.outputs u₅ ∧
      Reader.u32LE.runFrom u₅ = (.ok tx.lockTime, c') := by
  unfold read at h
  simp only [Stateful.runFrom_bind_ok, TransactionPart.reading_ok, Reader.runFrom_position,
    Reader.times_ok] at h
  obtain ⟨_, _, ⟨⟩, version, u₁, hversion, n, u₂, hn, inputs, u₃, ⟨hinputs, hin⟩, m, u₄, hm,
    outputs, u₅, ⟨houtputs, hout⟩, lockTime, u₆, hlockTime, _, _, ⟨⟩, ⟨⟩⟩ := h
  have hn' : ofLength inputs = n := by rw [ofLength, hinputs, UInt64.ofNat_toNat]
  have hm' : ofLength outputs = m := by rw [ofLength, houtputs, UInt64.ofNat_toNat]
  refine ⟨rfl, ?_, ?_, u₁, u₂, u₃, u₄, u₅, hversion, ?_, hin, ?_, hout, hlockTime⟩
  · simpa [hinputs] using n.toNat_lt
  · simpa [houtputs] using m.toNat_lt
  · simpa [hn'] using hn
  · simpa [hm'] using hm

/-! ## Encodings -/

/-- The forms of the counts in an encoding: of the numbers of inputs and outputs, and of the
lengths of their scripts. -/
structure Forms where
  inputCount : Form
  unlocking : List Form
  outputCount : Form
  locking : List Form

def unlockingLengths (tx : Transaction) : List Nat := tx.inputs.map (·.unlocking.encode.length)

def lockingLengths (tx : Transaction) : List Nat := tx.outputs.map (·.locking.encode.length)

namespace Forms

/-- Every form is in the relation `p` to the count that is written in it. -/
structure All (p : Form → Nat → Prop) (forms : Forms) (tx : Transaction) : Prop where
  inputCount : p forms.inputCount tx.inputs.length
  unlocking : List.Forall₂ p forms.unlocking tx.unlockingLengths
  outputCount : p forms.outputCount tx.outputs.length
  locking : List.Forall₂ p forms.locking tx.lockingLengths

end Forms

def encodeIn (forms : Forms) (tx : Transaction) : Bytes :=
  Bytes.ofUInt32 tx.version ++
    forms.inputCount.encode tx.inputs.length ++
    (forms.unlocking.zipWith TransactionInput.encodeIn tx.inputs).flatten ++
    forms.outputCount.encode tx.outputs.length ++
    (forms.locking.zipWith TransactionOutput.encodeIn tx.outputs).flatten ++
    Bytes.ofUInt32 tx.lockTime

/-- The bytes are the transaction with its counts in these forms, and every count has room. -/
def Spelled (tx : Transaction) (forms : Forms) (raw : Bytes) : Prop :=
  forms.All Form.Fits tx ∧ raw = tx.encodeIn forms

variable {tx : Transaction} {forms : Forms}

theorem Forms.All.counted (h : forms.All Form.Fits tx) : tx.Counted := by
  have hlt : ∀ {forms : List Form} {ns : List Nat}, List.Forall₂ Form.Fits forms ns →
      ∀ n ∈ ns, n < UInt64.size := by
    intro forms ns h
    induction h with
    | nil => simp
    | cons hfits _ ih => simpa using ⟨hfits.lt_size, ih⟩
  refine ⟨h.inputCount.lt_size, h.outputCount.lt_size, ?_, ?_⟩
  · intro input hinput
    exact hlt h.unlocking _ (List.mem_map_of_mem hinput)
  · intro output houtput
    exact hlt h.locking _ (List.mem_map_of_mem houtput)

theorem spelled_of_read {c c' : Cursor} (h : read.runFrom c = (.ok tx, c')) :
    ∃ forms b, tx.Spelled forms b ∧ Takes c b c' := by
  obtain ⟨-, hinputs, houtputs, u₁, u₂, u₃, u₄, u₅, hversion, hn, hin, hm, hout, hlockTime⟩ :=
    read_ok h
  obtain ⟨inputCount, hn, htakesN⟩ := CompactSize.read_ok hn
  obtain ⟨outputCount, hm, htakesM⟩ := CompactSize.read_ok hm
  rw [ofLength, UInt64.toNat_ofNat_of_lt' hinputs] at hn htakesN
  rw [ofLength, UInt64.toNat_ofNat_of_lt' houtputs] at hm htakesM
  obtain ⟨unlocking, hunlocking, htakesIn⟩ :=
    hin.exists_forms fun _ _ _ h => (TransactionInput.read_ok h).2.2
  obtain ⟨locking, hlocking, htakesOut⟩ :=
    hout.exists_forms fun _ _ _ h => (TransactionOutput.read_ok h).2.2
  refine ⟨⟨inputCount, unlocking, outputCount, locking⟩, _, ⟨⟨hn, ?_, hm, ?_⟩, rfl⟩, ?_⟩
  · exact List.forall₂_map_right_iff.mpr hunlocking
  · exact List.forall₂_map_right_iff.mpr hlocking
  · exact (((((u32LE_ok hversion).trans htakesN).trans htakesIn).trans htakesM).trans
      htakesOut).trans (u32LE_ok hlockTime)

theorem scriptsDecoded_of_read {c c' : Cursor} (h : read.runFrom c = (.ok tx, c')) :
    tx.ScriptsDecoded := by
  obtain ⟨-, -, -, u₁, u₂, u₃, u₄, u₅, -, -, hin, -, hout, -⟩ := read_ok h
  constructor
  · exact hin.forall_mem fun _ _ _ h => (TransactionInput.read_ok h).1
  · exact hout.forall_mem fun _ _ _ h => (TransactionOutput.read_ok h).1

theorem decode_ok {raw : Bytes} (h : decode raw = .ok tx) :
    read.runFrom (.start raw) = (.ok tx, ⟨raw.length, []⟩) := by
  unfold decode at h
  split at h
  · simp at h
  · rename_i tx' c' hread
    split at h
    · rename_i hend
      cases h
      obtain ⟨forms, b, -, hrest, hposition⟩ := spelled_of_read hread
      rcases c' with ⟨position, rest⟩
      simp_all [Cursor.start, Cursor.atEnd]
    · simp at h

theorem spelled_of_decode {raw : Bytes} (h : decode raw = .ok tx) :
    ∃ forms, tx.Spelled forms raw := by
  obtain ⟨forms, b, hspelled, hrest, -⟩ := spelled_of_read (decode_ok h)
  have hraw : raw = b := by simpa [Cursor.start] using hrest
  exact ⟨forms, hraw ▸ hspelled⟩

end Transaction

end Utxo
