import Utxo.Proofs.Transaction.Reading

/-!
# Reading a transaction that was written

The main statement is that a transaction is read back from its encoding, wherever that stands, and
that reading stops right behind it. Only the places in the source are new.
-/

namespace Utxo

/-! ## Parts -/

open Reader

theorem TransactionInput.read_of_takes {input : TransactionInput}
    (hdecoded : input.unlocking.IsDecoded) (hcounted : input.unlocking.IsCounted)
    {c c' : Cursor} (h : Takes c input.encode c') :
    TransactionInput.read.runFrom c =
      (.ok { input with range := ⟨c.position, c'.position⟩ }, c') := by
  rw [encode_eq_shortest hcounted] at h
  exact read_of_form hdecoded (CompactSize.Form.isShortest_shortest hcounted).1 h

theorem TransactionOutput.read_of_takes {output : TransactionOutput}
    (hdecoded : output.locking.IsDecoded) (hcounted : output.locking.IsCounted)
    {c c' : Cursor} (h : Takes c output.encode c') :
    TransactionOutput.read.runFrom c =
      (.ok { output with range := ⟨c.position, c'.position⟩ }, c') := by
  rw [encode_eq_shortest hcounted] at h
  exact read_of_form hdecoded (CompactSize.Form.isShortest_shortest hcounted).1 h

/-- A list of items is read back item by item, up to what `view` leaves out. -/
theorem Reader.times_of_takes {ε α β : Type} (reader : Reader ε α) {encode : α → Bytes}
    (view : α → β) {items : List α}
    (hread : ∀ item ∈ items, ∀ c c', Takes c (encode item) c' →
      ∃ back, reader.runFrom c = (.ok back, c') ∧ view back = view item)
    {c c' : Cursor} (h : Takes c (items.flatMap encode) c') :
    ∃ backs, (times reader items.length).runFrom c = (.ok backs, c') ∧
      backs.map view = items.map view := by
  induction items generalizing c with
  | nil =>
    refine ⟨[], ?_, rfl⟩
    rw [takes_nil_iff.mp h]
    rfl
  | cons item items ih =>
    obtain ⟨u, hitem, hrest⟩ := Takes.split h
    obtain ⟨back, hback, hview⟩ := hread item (List.mem_cons_self ..) c u hitem
    obtain ⟨backs, hbacks, hviews⟩ :=
      ih (fun item' hmem => hread item' (List.mem_cons_of_mem _ hmem)) hrest
    refine ⟨back :: backs, ?_, by rw [List.map_cons, List.map_cons, hview, hviews]⟩
    rw [List.length_cons, times, Stateful.runFrom_bind_of_ok hback,
      Stateful.runFrom_bind_of_ok hbacks, Stateful.runFrom_pure]

/-! ## Transactions -/

namespace Transaction

theorem read_of_takes {tx : Transaction} (hdecoded : tx.ScriptsDecoded) (hcounted : tx.Counted)
    {c c' : Cursor} (h : Takes c tx.encode c') :
    ∃ back, read.runFrom c = (.ok back, c') ∧ back.unplaced = tx.unplaced := by
  obtain ⟨u₅, h, hlockTime⟩ := Takes.split h
  obtain ⟨u₄, h, houtputs⟩ := Takes.split h
  obtain ⟨u₃, h, houtputCount⟩ := Takes.split h
  obtain ⟨u₂, h, hinputs⟩ := Takes.split h
  obtain ⟨u₁, hversion, hinputCount⟩ := Takes.split h
  obtain ⟨inputs, hinputs, hsameInputs⟩ :=
    times_of_takes TransactionInput.read TransactionInput.unplaced (fun input hmem c c' htakes =>
      ⟨_, TransactionInput.read_of_takes (hdecoded.unlocking input hmem)
        (hcounted.unlocking input hmem) htakes, rfl⟩) hinputs
  obtain ⟨outputs, houtputs, hsameOutputs⟩ :=
    times_of_takes TransactionOutput.read TransactionOutput.unplaced (fun output hmem c c' htakes =>
      ⟨_, TransactionOutput.read_of_takes (hdecoded.locking output hmem)
        (hcounted.locking output hmem) htakes, rfl⟩) houtputs
  have hinputLength : (CompactSize.ofLength tx.inputs).toNat = tx.inputs.length :=
    UInt64.toNat_ofNat_of_lt' hcounted.inputs
  have houtputLength : (CompactSize.ofLength tx.outputs).toNat = tx.outputs.length :=
    UInt64.toNat_ofNat_of_lt' hcounted.outputs
  rw [← hinputLength] at hinputs
  rw [← houtputLength] at houtputs
  refine ⟨⟨tx.version, inputs, outputs, tx.lockTime, ⟨c.position, c'.position⟩⟩, ?_, ?_⟩
  · rw [read, Stateful.runFrom_bind_of_ok (Reader.runFrom_position c),
      Stateful.runFrom_bind_of_ok (TransactionPart.version.reading_of_ok (u32_of_takes hversion)),
      Stateful.runFrom_bind_of_ok
        (TransactionPart.inputCount.reading_of_ok (CompactSize.read_of_takes hinputCount)),
      Stateful.runFrom_bind_of_ok hinputs,
      Stateful.runFrom_bind_of_ok
        (TransactionPart.outputCount.reading_of_ok (CompactSize.read_of_takes houtputCount)),
      Stateful.runFrom_bind_of_ok houtputs,
      Stateful.runFrom_bind_of_ok
        (TransactionPart.lockTime.reading_of_ok (u32_of_takes hlockTime)),
      Stateful.runFrom_bind_of_ok (Reader.runFrom_position c'), Stateful.runFrom_pure]
  · simp only [unplaced, hsameInputs, hsameOutputs]

theorem decode_encode {tx : Transaction} (hdecoded : tx.ScriptsDecoded) (hcounted : tx.Counted) :
    ∃ back, decode tx.encode = .ok back ∧ back.unplaced = tx.unplaced := by
  have htakes := takes_start tx.encode []
  rw [List.append_nil] at htakes
  obtain ⟨back, hread, hsame⟩ := read_of_takes hdecoded hcounted htakes
  refine ⟨back, ?_, hsame⟩
  rw [decode, hread]
  rfl

/-- A transaction of decoded scripts is read back from its encoding, whatever has been read before
and whatever follows; reading then stands right behind it. So it is also decoded from its encoding
alone, and it shares its encoding with no other transaction. -/
theorem read_encode (tx : Transaction) (hdecoded : tx.ScriptsDecoded) (hcounted : tx.Counted) :
    (∀ consumed rest : Bytes, ∃ back,
      read.runFrom ⟨consumed.length, tx.encode ++ rest⟩ =
        (.ok back, ⟨(consumed ++ tx.encode).length, rest⟩) ∧
      back.unplaced = tx.unplaced) ∧
    (∃ back, decode tx.encode = .ok back ∧ back.unplaced = tx.unplaced) ∧
    ∀ other : Transaction, other.ScriptsDecoded → other.Counted → other.encode = tx.encode →
      other.unplaced = tx.unplaced := by
  refine ⟨fun consumed rest => read_of_takes hdecoded hcounted ⟨rfl, List.length_append⟩,
    decode_encode hdecoded hcounted, fun other hdecoded' hcounted' hsame => ?_⟩
  obtain ⟨back, hback, hunplaced⟩ := decode_encode hdecoded hcounted
  obtain ⟨back', hback', hunplaced'⟩ := decode_encode hdecoded' hcounted'
  rw [hsame, hback] at hback'
  cases hback'
  rw [← hunplaced, hunplaced']

/-- The unlocking script of the input breaks off inside a push. -/
theorem read_encode_broken_script :
    let tx : Transaction :=
      { inputs := [{ outpoint := .null, unlocking := .decode [0x51, 0x05, 0xaa] }]
        outputs := [{ satoshis := 50, locking := .decode [0x76, 0xa9] }] }
    tx.ScriptsDecoded ∧ tx.Counted ∧
      ∃ back, decode tx.encode = .ok back ∧ back.unplaced = tx.unplaced := by
  intro tx
  have hdecoded : tx.ScriptsDecoded := by
    constructor <;> simp only [tx, List.mem_singleton, forall_eq] <;> apply Script.isDecoded_decode
  have hcounted : tx.Counted := by
    constructor <;>
      simp only [tx, List.mem_singleton, forall_eq, Script.IsCounted, Script.encode_decode] <;>
      decide
  exact ⟨hdecoded, hcounted, (read_encode tx hdecoded hcounted).2.1⟩

end Transaction

end Utxo
