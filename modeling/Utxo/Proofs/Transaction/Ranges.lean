import Utxo.Proofs.Transaction.Reading
import Utxo.Bytes.Range

/-!
# Where the parts of a transaction stand

A transaction that is read leaves no byte of its source out: the ranges of its parts lie one behind
the other, with only the counts, the version and the lock time between them. Each range holds bytes
that alone are the same part.
-/

namespace Utxo

open Reader CompactSize

/-! ## Places in a source -/

/-- Ranges that hold something and lie one behind the other, from `start` to `stop`. -/
def ByteRange.Tile : (start : Nat) → List ByteRange → (stop : Nat) → Prop
  | start, [], stop => start = stop
  | start, r :: ranges, stop => r.start = start ∧ start < r.stop ∧ Tile r.stop ranges stop

/-- The source holds the number `n` in some form from `start` to `stop`. -/
def CountAt (source : Bytes) (start stop n : Nat) : Prop :=
  ∃ count width, CompactSize.decode (source.drop start) = .ok (count, width) ∧
    count.toNat = n ∧ stop = start + width

/-- The bytes of `source` in a range are read as `part`, and all of them are. -/
def ByteRange.Holds {ε α : Type} (r : ByteRange) (source : Bytes) (reader : Reader ε α)
    (part : α) : Prop :=
  ∃ slice, r.slice? source = some slice ∧
    reader.runFrom (.start slice) = (.ok part, ⟨slice.length, []⟩)

variable {source b : Bytes} {c c' : Cursor}

theorem ByteRange.Tile.start_lt_stop {start stop : Nat} {ranges : List ByteRange}
    (h : Tile start ranges stop) : ∀ r ∈ ranges, r.start < r.stop := by
  induction ranges generalizing start with
  | nil => simp
  | cons r ranges ih =>
    obtain ⟨hstart, hlt, hrest⟩ := h
    rw [List.forall_mem_cons]
    exact ⟨hstart ▸ hlt, ih hrest⟩

theorem ByteRange.length_slice {r : ByteRange} (h : r.slice? source = some b) :
    b.length = r.length := by
  unfold slice? at h
  split at h
  · cases h
    rw [List.length_take, List.length_drop, length]
    omega
  · simp at h

theorem CompactSize.countAt_of_read {α : Type} {items : List α}
    (hlength : items.length < UInt64.size) (hsource : c.StandsIn source)
    (h : read.runFrom c = (.ok (ofLength items), c')) :
    c'.StandsIn source ∧ CountAt source c.position c'.position items.length := by
  obtain ⟨form, hfits, htakes⟩ := read_ok h
  refine ⟨(hsource.takes htakes).1, ofLength items, form.width, ?_,
    UInt64.toNat_ofNat_of_lt' hlength, ?_⟩
  · rw [hsource.drop]
    exact decode_ok_iff.mpr ⟨form, c'.rest, hfits, rfl, htakes.1⟩
  · rw [htakes.2, Form.length_encode]

/-! ## Inputs and outputs -/

/-- The input as it is read from its own bytes alone. -/
def TransactionInput.atStart (input : TransactionInput) : TransactionInput :=
  { input with range := ⟨0, input.range.length⟩ }

def TransactionOutput.atStart (output : TransactionOutput) : TransactionOutput :=
  { output with range := ⟨0, output.range.length⟩ }

/-- Between the cursors stands a part that has the range `r` and is read alone as `part`. -/
structure PartAt {ε α : Type} (source : Bytes) (c c' : Cursor) (r : ByteRange)
    (reader : Reader ε α) (part : α) : Prop where
  range : r = ⟨c.position, c'.position⟩
  nonempty : c.position < c'.position
  next : c'.StandsIn source
  alone : r.Holds source reader part

/-- Bytes that are read in the same way wherever they stand are a part. -/
theorem partAt_of_takes {ε α : Type} {reader : Reader ε α} {f : ByteRange → α} {r : ByteRange}
    (hsource : c.StandsIn source) (htakes : Takes c b c') (hrange : r = ⟨c.position, c'.position⟩)
    (hpos : 0 < b.length)
    (hread : ∀ {c c'}, Takes c b c' →
      reader.runFrom c = (.ok (f ⟨c.position, c'.position⟩), c')) :
    PartAt source c c' r reader (f ⟨0, r.length⟩) := by
  obtain ⟨hnext, hslice⟩ := hsource.takes htakes
  have halone := hread (takes_start b [])
  rw [List.append_nil] at halone
  rw [hrange, htakes.length_range]
  refine ⟨rfl, ?_, hnext, b, hslice, halone⟩
  rw [htakes.2]
  omega

theorem TransactionInput.partAt_of_read {input : TransactionInput} (hsource : c.StandsIn source)
    (h : read.runFrom c = (.ok input, c')) :
    PartAt source c c' input.range read input.atStart := by
  obtain ⟨hdecoded, hrange, form, hfits, htakes⟩ := read_ok h
  have hpos : 0 < (input.encodeIn form).length := by
    rw [length_encodeIn]
    omega
  exact partAt_of_takes (f := fun r => { input with range := r }) hsource htakes hrange hpos
    (read_of_form hdecoded hfits)

theorem TransactionOutput.partAt_of_read {output : TransactionOutput}
    (hsource : c.StandsIn source) (h : read.runFrom c = (.ok output, c')) :
    PartAt source c c' output.range read output.atStart := by
  obtain ⟨hdecoded, hrange, form, hfits, htakes⟩ := read_ok h
  have hpos : 0 < (output.encodeIn form).length := by
    rw [length_encodeIn]
    omega
  exact partAt_of_takes (f := fun r => { output with range := r }) hsource htakes hrange hpos
    (read_of_form hdecoded hfits)

theorem Reader.Reads.tile {ε α : Type} {reader : Reader ε α} {range : α → ByteRange}
    {atStart : α → α} {items : List α}
    (hread : ∀ {c item c'}, c.StandsIn source → reader.runFrom c = (.ok item, c') →
      PartAt source c c' (range item) reader (atStart item))
    (hsource : c.StandsIn source) (h : Reads reader c items c') :
    c'.StandsIn source ∧ ByteRange.Tile c.position (items.map range) c'.position ∧
      ∀ item ∈ items, (range item).Holds source reader (atStart item) := by
  induction items generalizing c with
  | nil =>
    cases h
    exact ⟨hsource, rfl, by simp⟩
  | cons item items ih =>
    obtain ⟨u, hitem, hrest⟩ := h
    have hpart := hread hsource hitem
    obtain ⟨hnext, htile, hall⟩ := ih hpart.next hrest
    refine ⟨hnext, ?_, by simpa using ⟨hpart.alone, hall⟩⟩
    rw [List.map_cons, hpart.range]
    exact ⟨rfl, hpart.nonempty, htile⟩

/-! ## Transactions -/

namespace Transaction

/-- Behind four bytes of version come the number of inputs and the inputs, the number of outputs
and the outputs, and four bytes of lock time, each right behind the other. -/
structure TilesIn (tx : Transaction) (source : Bytes) : Prop where
  parts : ∃ inputsStart inputsStop outputsStart outputsStop,
    CountAt source (tx.range.start + 4) inputsStart tx.inputs.length ∧
    ByteRange.Tile inputsStart (tx.inputs.map (·.range)) inputsStop ∧
    CountAt source inputsStop outputsStart tx.outputs.length ∧
    ByteRange.Tile outputsStart (tx.outputs.map (·.range)) outputsStop ∧
    (⟨outputsStop, tx.range.stop⟩ : ByteRange).slice? source = some (Bytes.ofUInt32 tx.lockTime) ∧
    tx.range.stop = outputsStop + 4
  inputs : ∀ input ∈ tx.inputs, input.range.Holds source TransactionInput.read input.atStart
  outputs : ∀ output ∈ tx.outputs, output.range.Holds source TransactionOutput.read output.atStart

variable {tx : Transaction}

theorem tilesIn_of_read (hsource : c.StandsIn source) (h : read.runFrom c = (.ok tx, c')) :
    tx.TilesIn source := by
  obtain ⟨hrange, hinputsLt, houtputsLt, u₁, u₂, u₃, u₄, u₅, hversion, hn, hin, hm, hout,
    hlockTime⟩ := read_ok h
  have hversion := u32LE_ok hversion
  have hlockTime := u32LE_ok hlockTime
  obtain ⟨hu₁, -⟩ := hsource.takes hversion
  obtain ⟨hu₂, hinputCount⟩ := countAt_of_read hinputsLt hu₁ hn
  obtain ⟨hu₃, hinputs, hinputsAlone⟩ := hin.tile TransactionInput.partAt_of_read hu₂
  obtain ⟨hu₄, houtputCount⟩ := countAt_of_read houtputsLt hu₃ hm
  obtain ⟨hu₅, houtputs, houtputsAlone⟩ := hout.tile TransactionOutput.partAt_of_read hu₄
  obtain ⟨-, hlockTimeSlice⟩ := hu₅.takes hlockTime
  have hinputsStart : tx.range.start + 4 = u₁.position := by rw [hrange, hversion.2]; rfl
  have hstop : tx.range.stop = c'.position := by rw [hrange]
  refine ⟨⟨u₂.position, u₃.position, u₄.position, u₅.position, ?_, hinputs, houtputCount, houtputs,
    ?_, ?_⟩, hinputsAlone, houtputsAlone⟩
  · rwa [hinputsStart]
  · rwa [hstop]
  · rw [hstop, hlockTime.2]
    rfl

theorem slice_of_read (hsource : c.StandsIn source) (h : read.runFrom c = (.ok tx, c')) :
    ∃ b, tx.range.slice? source = some b ∧ c.rest = b ++ c'.rest := by
  obtain ⟨forms, b, -, htakes⟩ := spelled_of_read h
  refine ⟨b, ?_, htakes.1⟩
  rw [(read_ok h).1]
  exact (hsource.takes htakes).2

/-! ## Whole sources -/

theorem range_of_decode {raw : Bytes} (h : decode raw = .ok tx) :
    tx.range = ⟨0, raw.length⟩ ∧ tx.range.slice? raw = some raw := by
  have hread := decode_ok h
  obtain ⟨b, hslice, hrest⟩ := slice_of_read (Cursor.standsIn_start raw) hread
  have hraw : raw = b := by simpa [Cursor.start] using hrest
  exact ⟨(read_ok hread).1, hraw ▸ hslice⟩

theorem tilesIn_of_decode {raw : Bytes} (h : decode raw = .ok tx) : tx.TilesIn raw :=
  tilesIn_of_read (Cursor.standsIn_start raw) (decode_ok h)

end Transaction

end Utxo
