import Utxo.Proofs.Json.Records
import Utxo.Proofs.Transaction.Ranges
import Utxo.Transaction.Json

/-!
# Transactions survive their JSON form

A script is written as its bytes alone and decoded anew, and the name of a transaction is written
backwards. For transactions that were decoded nothing is lost in this.
-/

namespace Utxo

open Json

/-! ## Parts -/

/-- The offsets are numbers of 64 bits. -/
structure ByteRange.IsCounted (r : ByteRange) : Prop where
  start : r.start < UInt64.size
  stop : r.stop < UInt64.size

theorem ByteRange.ofJson?_toJson {r : ByteRange} (h : r.IsCounted) : ofJson? r.toJson = some r := by
  rw [ofJson?, toJson, fields?_record (by simp) (by simp)]
  simp [required, List.lookup_cons, natBelow?_nat, h.start, h.stop]

theorem ByteRange.isCounted_of_slice {r : ByteRange} {source b : Bytes}
    (hsource : source.length < UInt64.size) (h : r.slice? source = some b) : r.IsCounted := by
  unfold slice? at h
  split at h
  · rename_i hwithin
    constructor <;> omega
  · cases h

theorem TransactionId.ofShown_shown (id : TransactionId) : ofShown id.shown = .ok id := by
  have hlength : id.shownBytes.length = 32 := by
    rw [shownBytes, List.length_reverse, id.wire.property]
  rw [ofShown, shown, Hex.decode_encode]
  show (if h : id.shownBytes.length = 32 then _ else _) = _
  rw [dif_pos hlength]
  simp only [shownBytes, List.reverse_reverse]

@[simp] theorem TransactionId.ofJson?_toJson (id : TransactionId) :
    ofJson? id.toJson = some id := by
  show (ofShown id.shown).toOption = some id
  rw [ofShown_shown]
  rfl

theorem Script.ofJson?_toJson {s : Script} (h : s.IsDecoded) : ofJson? s.toJson = some s := by
  rw [ofJson?, toJson, hex?_hex]
  exact congrArg some h

theorem TransactionInput.ofJson?_toJson {input : TransactionInput}
    (hscript : input.unlocking.IsDecoded) (hrange : input.range.IsCounted) :
    ofJson? input.toJson = some input := by
  rw [ofJson?, toJson, fields?_record (by simp) (by simp)]
  simp [required, defaulted, List.lookup_cons, Script.ofJson?_toJson hscript,
    ByteRange.ofJson?_toJson hrange]

theorem TransactionOutput.ofJson?_toJson {output : TransactionOutput}
    (hscript : output.locking.IsDecoded) (hrange : output.range.IsCounted) :
    ofJson? output.toJson = some output := by
  rw [ofJson?, toJson, fields?_record (by simp) (by simp)]
  simp [required, defaulted, List.lookup_cons, Script.ofJson?_toJson hscript,
    ByteRange.ofJson?_toJson hrange]

/-! ## Whole transactions -/

namespace Transaction

variable {tx : Transaction} {b : Bytes}

/-- The offsets of all parts are numbers of 64 bits. -/
structure RangesCounted (tx : Transaction) : Prop where
  whole : tx.range.IsCounted
  inputs : ∀ input ∈ tx.inputs, input.range.IsCounted
  outputs : ∀ output ∈ tx.outputs, output.range.IsCounted

theorem rangesCounted_of_decode (hlength : b.length < UInt64.size) (h : decode b = .ok tx) :
    tx.RangesCounted := by
  have htiles := tilesIn_of_decode h
  refine ⟨ByteRange.isCounted_of_slice hlength (range_of_decode h).2, ?_, ?_⟩
  · intro input hinput
    obtain ⟨slice, hslice, -⟩ := htiles.inputs input hinput
    exact ByteRange.isCounted_of_slice hlength hslice
  · intro output houtput
    obtain ⟨slice, hslice, -⟩ := htiles.outputs output houtput
    exact ByteRange.isCounted_of_slice hlength hslice

theorem ofJson?_toJson (hscripts : tx.ScriptsDecoded) (hranges : tx.RangesCounted) :
    ofJson? tx.toJson = some tx := by
  have hinputs : (list TransactionInput.toJson tx.inputs).list? TransactionInput.ofJson? =
      some tx.inputs := list?_list fun input hinput =>
    TransactionInput.ofJson?_toJson (hscripts.unlocking input hinput) (hranges.inputs input hinput)
  have houtputs : (list TransactionOutput.toJson tx.outputs).list? TransactionOutput.ofJson? =
      some tx.outputs := list?_list fun output houtput =>
    TransactionOutput.ofJson?_toJson (hscripts.locking output houtput)
      (hranges.outputs output houtput)
  rw [ofJson?, toJson, fields?_record (by simp) (by simp)]
  simp [required, defaulted, List.lookup_cons, hinputs, houtputs,
    ByteRange.ofJson?_toJson hranges.whole]

/-- A transaction that was decoded from bytes in memory is read back from its JSON form with all its
parts, broken scripts and places in the source included. The names of transactions stand there as
the digits of their bytes in reverse. -/
theorem ofJson?_toJson_of_decode (b : Bytes) (tx : Transaction) (hlength : b.length < UInt64.size)
    (h : decode b = .ok tx) :
    ofJson? tx.toJson = some tx ∧
      ∀ input ∈ tx.inputs,
        input.outpoint.source.toJson.hex? = some input.outpoint.source.wire.val.reverse :=
  ⟨ofJson?_toJson (scriptsDecoded_of_read (decode_ok h)) (rangesCounted_of_decode hlength h),
    fun _ _ => hex?_hex _⟩

/-- The unlocking script breaks off inside a push, and the value takes all 64 bits. -/
theorem ofJson?_toJson_of_decode_broken_script :
    let source : FixedBytes 32 := ⟨(List.range' 1 32).map UInt8.ofNat, rfl⟩
    let b : Bytes := [1, 0, 0, 0, 1] ++ source.val ++ [7, 0, 0, 0, 2, 0x51, 0x05] ++
      List.replicate 4 0xff ++ [1] ++ List.replicate 8 0xff ++ [1, 0x6a] ++ [0, 0, 0, 0]
    let tx : Transaction :=
      { inputs := [{ outpoint := ⟨⟨source⟩, 7⟩
                     unlocking := ⟨[.code 0x51], some ⟨⟨5, 0⟩, [0x05]⟩⟩
                     range := ⟨5, 48⟩ }]
        outputs := [{ satoshis := 0xffffffffffffffff
                      locking := .ofOperations [.code Opcode.opReturn]
                      range := ⟨49, 59⟩ }]
        range := ⟨0, 63⟩ }
    b.length < UInt64.size ∧ decode b = .ok tx ∧ ofJson? tx.toJson = some tx := by
  intro source b tx
  have hlength : b.length < UInt64.size := by decide
  have hdecode : decode b = .ok tx := by decide +kernel
  exact ⟨hlength, hdecode, (ofJson?_toJson_of_decode b tx hlength hdecode).1⟩

end Transaction

end Utxo
