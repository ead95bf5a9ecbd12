import Mathlib.Data.List.Basic
import Utxo.Proofs.Script.Decoding
import Utxo.Transaction.Preimage

/-!
# The older preimage is a transaction

The main statement is that the preimage without a fork id is the encoding of a copy of the
transaction, in which what the signature leaves open is blank, and the flags behind it.
-/

namespace Utxo.Transaction

/-! ## The copy -/

/-- Input `i`, if input `signed` is the one that is signed. -/
def copiedInput (signed : Nat) (script : Bytes) (flags : SigHashFlags) (i : Nat)
    (input : TransactionInput) : TransactionInput :=
  if i = signed then { input with unlocking := Script.decode script }
  else { input with
    unlocking := {}
    sequence := if flags.base = .all then input.sequence else 0 }

def copiedInputs (tx : Transaction) (signed : Nat) (script : Bytes) (flags : SigHashFlags) :
    List TransactionInput :=
  if flags.anyoneCanPay then (tx.inputs.mapIdx (copiedInput signed script flags))[signed]?.toList
  else tx.inputs.mapIdx (copiedInput signed script flags)

/-- What stands in the copy for an output that the signature passes over. -/
def nullOutput : TransactionOutput := { satoshis := 0xffffffffffffffff, locking := {} }

/-- Output `i`, if only the output at `kept` is covered. -/
def copiedOutput (kept i : Nat) (output : TransactionOutput) : TransactionOutput :=
  if i < kept then nullOutput else output

def copiedOutputs (tx : Transaction) (signed : Nat) (flags : SigHashFlags) :
    List TransactionOutput :=
  match flags.base with
  | .all => tx.outputs
  | .none => []
  | .single => (tx.outputs.take (signed + 1)).mapIdx (copiedOutput signed)

/-- The transaction as a signature for input `signed` covers it, with `script` in that input. -/
def signedCopy (tx : Transaction) (signed : Nat) (script : Bytes) (flags : SigHashFlags) :
    Transaction :=
  { tx with
    inputs := tx.copiedInputs signed script flags
    outputs := tx.copiedOutputs signed flags }

/-! ## Its inputs -/

theorem encode_copiedInput (signed : Nat) (script : Bytes) (flags : SigHashFlags) (i : Nat)
    (input : TransactionInput) :
    (copiedInput signed script flags i input).encode =
      if i = signed then input.encodeWith script input.sequence
      else input.encodeWith [] (if flags.base = .all then input.sequence else 0) := by
  unfold copiedInput TransactionInput.encode
  split
  · rw [Script.encode_decode]
    rfl
  · rfl

/-- Where only one item of a list is written, that item is all there is. -/
theorem flatMap_zipIdx_single {α β : Type} (f : α → List β) (items : List α) (start k : Nat) :
    (items.zipIdx start).flatMap (fun p => if p.2 = start + k then f p.1 else []) =
      items[k]?.toList.flatMap f := by
  induction items generalizing start k with
  | nil => rfl
  | cons item items ih =>
    rw [List.zipIdx_cons, List.flatMap_cons]
    cases k with
    | zero =>
      have hrest : (items.zipIdx (start + 1)).flatMap
          (fun p => if p.2 = start + 0 then f p.1 else []) = [] := by
        rw [List.flatMap_eq_nil_iff]
        intro p hp
        have hlater := List.le_snd_of_mem_zipIdx hp
        rw [if_neg (by omega)]
      rw [hrest]
      simp
    | succ k =>
      have hnext := ih (start + 1) k
      rw [Nat.add_right_comm, Nat.add_assoc] at hnext
      rw [hnext, if_neg (by omega)]
      rfl

theorem flatMap_legacyInput (tx : Transaction) (signed : Nat) (script : Bytes)
    (flags : SigHashFlags) :
    (tx.inputs.zipIdx.flatMap fun (input, i) => legacyInput signed script flags input i) =
      (tx.copiedInputs signed script flags).flatMap TransactionInput.encode := by
  unfold copiedInputs
  cases hpay : flags.anyoneCanPay with
  | true =>
    have hone : (fun ((input, i) : TransactionInput × Nat) =>
        legacyInput signed script flags input i) = fun p =>
          if p.2 = 0 + signed then p.1.encodeWith script p.1.sequence else [] := by
      funext ⟨input, i⟩
      simp only [legacyInput, hpay, if_true, Nat.zero_add]
    rw [hone, flatMap_zipIdx_single fun input : TransactionInput =>
      input.encodeWith script input.sequence, if_pos rfl, List.getElem?_mapIdx]
    cases tx.inputs[signed]? with
    | none => rfl
    | some input =>
      simp only [Option.map_some, Option.toList_some, List.flatMap_singleton]
      rw [encode_copiedInput, if_pos rfl]
  | false =>
    simp only [Bool.false_eq_true, if_false]
    rw [List.mapIdx_eq_zipIdx_map, List.flatMap_map]
    congr 1
    funext ⟨input, i⟩
    rw [encode_copiedInput]
    simp only [legacyInput, hpay, Bool.false_eq_true, if_false]

theorem length_copiedInputs {tx : Transaction} {signed : Nat} (h : signed < tx.inputs.length)
    (script : Bytes) (flags : SigHashFlags) :
    (tx.copiedInputs signed script flags).length =
      if flags.anyoneCanPay then 1 else tx.inputs.length := by
  unfold copiedInputs
  split
  · rw [List.getElem?_mapIdx, List.getElem?_eq_getElem h]
    rfl
  · rw [List.length_mapIdx]

/-! ## Its outputs -/

theorem encode_nullOutput : nullOutput.encode = blankOutput := rfl

theorem copiedOutputs_single {tx : Transaction} {signed : Nat} {flags : SigHashFlags}
    (hbase : flags.base = .single) {output : TransactionOutput}
    (houtput : tx.outputs[signed]? = some output) :
    tx.copiedOutputs signed flags = List.replicate signed nullOutput ++ [output] := by
  obtain ⟨hlt, -⟩ := List.getElem?_eq_some_iff.mp houtput
  have hlength : (tx.outputs.take signed).length = signed := by
    rw [List.length_take]
    omega
  have hnull : (tx.outputs.take signed).mapIdx (copiedOutput signed) =
      List.replicate signed nullOutput := by
    rw [List.mapIdx_eq_replicate_iff.mpr, hlength]
    intro i hi
    rw [copiedOutput, if_pos (by omega)]
  unfold copiedOutputs
  rw [hbase]
  simp only
  rw [List.take_add_one, houtput, Option.toList_some, List.mapIdx_concat, hlength, hnull,
    copiedOutput, if_neg (by omega)]

/-! ## The preimage -/

/-- Which preimages there are, and what they are written as. -/
theorem legacyPreimage?_eq_signedCopy (tx : Transaction) (index : Nat) (script : Bytes)
    (flags : SigHashFlags) :
    tx.legacyPreimage? index script flags =
      if tx.inputs.length ≤ index then .error (.noInput index tx.inputs.length)
      else if flags.base = .single ∧ tx.outputs.length ≤ index then .ok none
      else .ok (some ((tx.signedCopy index script flags).encode ++
        Bytes.ofUInt32 flags.byte.toUInt32)) := by
  by_cases hindex : tx.inputs.length ≤ index
  · rw [legacyPreimage?, if_pos hindex, if_pos hindex]
  rw [legacyPreimage?, if_neg hindex, if_neg hindex]
  have hcount : (if flags.anyoneCanPay then 1 else CompactSize.ofLength tx.inputs) =
      CompactSize.ofLength (tx.copiedInputs index script flags) := by
    rw [CompactSize.ofLength, CompactSize.ofLength, length_copiedInputs (by omega)]
    split <;> rfl
  simp only [flatMap_legacyInput, hcount]
  have hcopy : (tx.signedCopy index script flags).encode =
      Bytes.ofUInt32 tx.version ++
        CompactSize.encode (CompactSize.ofLength (tx.copiedInputs index script flags)) ++
        (tx.copiedInputs index script flags).flatMap TransactionInput.encode ++
        CompactSize.encode (CompactSize.ofLength (tx.copiedOutputs index flags)) ++
        (tx.copiedOutputs index flags).flatMap TransactionOutput.encode ++
        Bytes.ofUInt32 tx.lockTime := rfl
  rw [hcopy]
  cases hbase : flags.base with
  | all =>
    have houtputs : tx.copiedOutputs index flags = tx.outputs := by
      unfold copiedOutputs
      rw [hbase]
    simp [houtputs]
  | none =>
    have houtputs : tx.copiedOutputs index flags = [] := by
      unfold copiedOutputs
      rw [hbase]
    have hcount : CompactSize.ofLength ([] : List TransactionOutput) = 0 := rfl
    simp [houtputs, hcount]
  | single =>
    cases houtput : tx.outputs[index]? with
    | none =>
      simp [List.getElem?_eq_none_iff.mp houtput]
    | some output =>
      obtain ⟨hlt, -⟩ := List.getElem?_eq_some_iff.mp houtput
      have hcount : CompactSize.ofLength (List.replicate index nullOutput ++ [output]) =
          UInt64.ofNat (index + 1) := by
        simp [CompactSize.ofLength]
      rw [copiedOutputs_single hbase houtput, hcount, List.flatMap_append, List.flatMap_singleton,
        List.flatMap_replicate, encode_nullOutput]
      simp [Nat.not_le.mpr hlt]

end Utxo.Transaction
