import Utxo.Inspection.Basic
import Utxo.Proofs.Transaction.NormalForm
import Utxo.Proofs.Transaction.Ranges
import Utxo.Proofs.Transaction.Size

/-!
# Reports and the bytes they are about

A report names and measures the bytes that were inspected, and quotes every part of them. The
transaction in it says the same of itself only if its counts stood in their shortest forms.
-/

namespace Utxo

open CompactSize Reader

/-- The quoted bytes are those of the source in the range, and there are some. -/
def ByteRange.Quoted (r : ByteRange) (source quoted : Bytes) : Prop :=
  r.slice? source = some quoted ∧ quoted ≠ []

namespace Inspector

variable {i : Inspector} {inner : TransactionInspector} {raw : Bytes} {report : TransactionReport}

theorem inspectBy_ok :
    i.inspectBy inner raw = .ok report ↔ ∃ tx, Transaction.decode raw = .ok tx ∧ report = {
      id := sourceId raw tx
      size := tx.range.length
      transaction := tx
      inputs := tx.inputs.zipIdx.map fun (input, index) => i.inputReport raw input index
      outputs := tx.outputs.zipIdx.map fun (output, index) =>
        i.outputReport inner raw output index } := by
  unfold inspectBy
  cases Transaction.decode raw with
  | error e => simp [Except.mapError]
  | ok tx => simp [Except.mapError, eq_comm]

theorem sourceId_of_decode {tx : Transaction} (h : Transaction.decode raw = .ok tx) :
    sourceId raw tx = .ofEncoded raw := by
  rw [sourceId, (Transaction.range_of_decode h).2]

end Inspector

/-! ## Quoted parts -/

section Parts

variable {α ρ ε : Type} {items : List α} {range : α → ByteRange} {report : α × Nat → ρ}

/-- Reports on numbered items keep the ranges of the items. -/
theorem map_range_zipIdx {range' : ρ → ByteRange} (h : ∀ p, range' (report p) = range p.1) :
    (items.zipIdx.map report).map range' = items.map range := by
  have hrange : range' ∘ report = range ∘ Prod.fst := funext h
  rw [List.map_map, hrange, ← List.map_map, List.zipIdx_map_fst]

theorem quoted_of_tile {start stop : Nat} {raw : Bytes} {reader : Reader ε α} {atStart : α → α}
    (htile : ByteRange.Tile start (items.map range) stop)
    (halone : ∀ item ∈ items, (range item).Holds raw reader (atStart item)) :
    ∀ p ∈ items.zipIdx, (range p.1).Quoted raw (Inspector.rawPart raw (range p.1)) := by
  intro p hp
  have hmem := List.fst_mem_of_mem_zipIdx hp
  obtain ⟨slice, hslice, -⟩ := halone p.1 hmem
  -- A part that holds something is not quoted as the empty bytes that stand for a failure.
  have hlt := htile.start_lt_stop (range p.1) (List.mem_map_of_mem hmem)
  have hlength := ByteRange.length_slice hslice
  unfold Inspector.rawPart
  rw [hslice]
  refine ⟨hslice, List.ne_nil_of_length_pos ?_⟩
  rw [Option.getD_some, hlength, ByteRange.length]
  omega

end Parts

/-- A transaction that is read anywhere in a source lies there without gaps, and each of its parts
is read from its own range alone. So a report quotes every part, and the id in it is the digest of
all that was inspected. -/
theorem ranges_tile_source :
    (∀ (consumed rest : Bytes) (tx : Transaction) (c' : Cursor),
      Transaction.read.runFrom ⟨consumed.length, rest⟩ = (.ok tx, c') →
      tx.range = ⟨consumed.length, c'.position⟩ ∧
      (∃ b, tx.range.slice? (consumed ++ rest) = some b ∧ rest = b ++ c'.rest) ∧
      tx.TilesIn (consumed ++ rest)) ∧
    ∀ (i : Inspector) (raw : Bytes) (report : TransactionReport), i.inspect raw = .ok report →
      report.id.wire = Digest.sha256d raw ∧
      report.inputs.map (·.range) = report.transaction.inputs.map (·.range) ∧
      report.outputs.map (·.range) = report.transaction.outputs.map (·.range) ∧
      (∀ r ∈ report.inputs, r.range.Quoted raw r.raw) ∧
      ∀ r ∈ report.outputs, r.range.Quoted raw r.raw := by
  constructor
  · intro consumed rest tx c' hread
    have hsource : Cursor.StandsIn (consumed ++ rest) ⟨consumed.length, rest⟩ :=
      ⟨consumed, rfl, rfl⟩
    exact ⟨(Transaction.read_ok hread).1, Transaction.slice_of_read hsource hread,
      Transaction.tilesIn_of_read hsource hread⟩
  · intro i raw report h
    obtain ⟨tx, hdecode, rfl⟩ := Inspector.inspectBy_ok.mp h
    obtain ⟨⟨_, _, _, _, -, hinputs, -, houtputs, -⟩, hinputsAlone, houtputsAlone⟩ :=
      Transaction.tilesIn_of_decode hdecode
    refine ⟨?_, map_range_zipIdx fun _ => rfl, map_range_zipIdx fun _ => rfl, ?_, ?_⟩
    · rw [Inspector.sourceId_of_decode hdecode]
      rfl
    · exact List.forall_mem_map.mpr (quoted_of_tile hinputs hinputsAlone)
    · exact List.forall_mem_map.mpr (quoted_of_tile houtputs houtputsAlone)

/-- Two bytes stand before the transaction and one stands behind it. The number of inputs takes
three bytes and the script of the input is broken. -/
theorem ranges_tile_source_between :
    let raw : Bytes := [1, 0, 0, 0, 0xfd, 1, 0] ++ List.replicate 36 7 ++
      [2, 0x51, 0x05] ++ [0xff, 0xff, 0xff, 0xff] ++ [1] ++ [9, 0, 0, 0, 0, 0, 0, 0, 1, 0x51] ++
      [0, 0, 0, 0]
    let tx : Transaction :=
      { inputs := [{ outpoint := ⟨⟨List.replicate 32 7, rfl⟩, 0x07070707⟩
                     unlocking := .decode [0x51, 0x05]
                     range := ⟨9, 52⟩ }]
        outputs := [{ satoshis := 9, locking := .decode [0x51], range := ⟨53, 63⟩ }]
        range := ⟨2, 67⟩ }
    let i : Inspector := { context := { schemas := {} } }
    Transaction.read.runFrom ⟨2, raw ++ [0xcc]⟩ = (.ok tx, ⟨67, [0xcc]⟩) ∧
      tx.TilesIn ([0xaa, 0xbb] ++ (raw ++ [0xcc])) ∧
      ∃ report, i.inspect raw = .ok report ∧ report.id.wire = Digest.sha256d raw ∧
        ∀ r ∈ report.inputs, r.range.Quoted raw r.raw := by
  intro raw tx i
  obtain ⟨htile, hreport⟩ := ranges_tile_source
  have hread : Transaction.read.runFrom ⟨2, raw ++ [0xcc]⟩ = (.ok tx, ⟨67, [0xcc]⟩) := by
    decide +kernel
  obtain ⟨-, -, htiles⟩ := htile [0xaa, 0xbb] _ _ _ hread
  obtain ⟨report, hinspect⟩ : ∃ report, i.inspect raw = .ok report :=
    ⟨_, Inspector.inspectBy_ok.mpr ⟨_, rfl, rfl⟩⟩
  obtain ⟨hid, -, -, hinputs, -⟩ := hreport i raw report hinspect
  exact ⟨hread, htiles, report, hinspect, hid, hinputs⟩

/-! ## Sizes and names -/

/-- Encoding the transaction in the report gives back the bytes that were inspected, so all that is
computed from the transaction alone is right for these bytes, too. -/
structure TransactionReport.AgreesWith (report : TransactionReport) (raw : Bytes) : Prop where
  encode : report.transaction.encode = raw
  id : report.id = report.transaction.id
  size : report.size = report.transaction.size
  fee : ∀ spent, (report.fee spent).size = report.size

theorem TransactionReport.agreesWith_iff {report : TransactionReport} {raw : Bytes}
    (hid : report.id = .ofEncoded raw) (hsize : report.size = raw.length) :
    report.AgreesWith raw ↔ report.transaction.encode = raw := by
  constructor
  · exact fun h => h.encode
  · intro hencode
    have htx : report.size = report.transaction.size := by
      rw [hsize, ← hencode, Transaction.length_encode]
    refine ⟨hencode, ?_, htx, fun _ => htx.symm⟩
    rw [hid, Transaction.id, hencode]

/-- The id and the size in a report are those of the bytes, and its fee is computed with the size
of the shortest encoding. They agree for the bytes whose counts stand in their shortest forms, and
for no others. -/
theorem inspect_agrees_iff_shortest {i : Inspector} {raw : Bytes} {report : TransactionReport}
    (h : i.inspect raw = .ok report) :
    report.id = .ofEncoded raw ∧ report.size = raw.length ∧
    (∀ spent, (report.fee spent).size = report.transaction.size) ∧
    report.transaction.size ≤ report.size ∧
    (report.transaction.size = report.size ↔ report.AgreesWith raw) ∧
    (∃ forms, report.transaction.Spelled forms raw) ∧
    ∀ forms, report.transaction.Spelled forms raw →
      (report.AgreesWith raw ↔ forms.All Form.IsShortest report.transaction) := by
  obtain ⟨tx, hdecode, rfl⟩ := Inspector.inspectBy_ok.mp h
  obtain ⟨forms, hspelled⟩ := Transaction.spelled_of_decode hdecode
  have hid := Inspector.sourceId_of_decode hdecode
  have hsize : tx.range.length = raw.length := by
    rw [(Transaction.range_of_decode hdecode).1]
    rfl
  rw [TransactionReport.agreesWith_iff hid hsize]
  refine ⟨hid, hsize, fun _ => rfl, ?_, ?_, ⟨forms, hspelled⟩, fun _ h => ?_⟩
  · simpa only [hsize, Transaction.length_encode] using hspelled.length_encode_le
  · simpa only [hsize, Transaction.length_encode] using hspelled.length_encode_eq_iff
  · exact h.encode_eq_iff

/-- The input has a script of two bytes and the output one of a single byte. The length of the first
stands in one byte, and then in three. -/
theorem inspect_agrees_iff_shortest_scripts :
    let raw (length : Bytes) : Bytes := [1, 0, 0, 0, 1] ++ List.replicate 36 7 ++ length ++
      [0x51, 0x52] ++ [0xff, 0xff, 0xff, 0xff] ++ [1] ++ [9, 0, 0, 0, 0, 0, 0, 0, 1, 0x53] ++
      [0, 0, 0, 0]
    let tx (width : Nat) : Transaction :=
      { inputs := [{ outpoint := ⟨⟨List.replicate 32 7, rfl⟩, 0x07070707⟩
                     unlocking := .decode [0x51, 0x52]
                     range := ⟨5, 47 + width⟩ }]
        outputs := [{ satoshis := 9, locking := .decode [0x53], range := ⟨48 + width, 58 + width⟩ }]
        range := ⟨0, 62 + width⟩ }
    let i : Inspector := { context := { schemas := {} } }
    (∃ report, i.inspect (raw [2]) = .ok report ∧ report.transaction = tx 1 ∧
      report.AgreesWith (raw [2])) ∧
    ∃ report, i.inspect (raw [0xfd, 2, 0]) = .ok report ∧ report.transaction = tx 3 ∧
      ¬report.AgreesWith (raw [0xfd, 2, 0]) := by
  intro raw tx i
  have hinspect (length : Bytes) (width : Nat)
      (hdecode : Transaction.decode (raw length) = .ok (tx width)) :
      ∃ report, i.inspect (raw length) = .ok report ∧ report.transaction = tx width ∧
        (report.AgreesWith (raw length) ↔ (tx width).size = (raw length).length) := by
    obtain ⟨report, hreport, htx⟩ : ∃ report, i.inspect (raw length) = .ok report ∧
        report.transaction = tx width := ⟨_, Inspector.inspectBy_ok.mpr ⟨_, hdecode, rfl⟩, rfl⟩
    obtain ⟨-, hsize, -, -, hagrees, -⟩ := inspect_agrees_iff_shortest hreport
    refine ⟨report, hreport, htx, ?_⟩
    rw [← hagrees, htx, hsize]
  obtain ⟨short, hshort, htx, hagrees⟩ := hinspect [2] 1 (by decide +kernel)
  obtain ⟨long, hlong, htx', hagrees'⟩ := hinspect [0xfd, 2, 0] 3 (by decide +kernel)
  refine ⟨⟨short, hshort, htx, hagrees.mpr ?_⟩, long, hlong, htx', ?_⟩
  · decide +kernel
  · rw [hagrees']
    decide +kernel

/-- Nothing but counts, and the number of inputs stands in three bytes. -/
theorem inspect_long_count :
    let raw : Bytes := [1, 0, 0, 0, 0xfd, 0, 0, 0, 0, 0, 0, 0]
    let i : Inspector := { context := { schemas := {} } }
    ∃ report, i.inspect raw = .ok report ∧ report.size = 12 ∧ report.transaction.size = 10 ∧
      (∀ spent, (report.fee spent).size = 10) ∧ report.transaction.encode ≠ raw ∧
      report.id ≠ report.transaction.id := by
  intro raw i
  refine ⟨_, rfl, rfl, rfl, fun _ => rfl, ?_, ?_⟩
  · decide
  · decide +kernel

end Utxo
