import Utxo.Proofs.Transaction.ForkPreimage
import Utxo.Proofs.Transaction.LegacyPreimage

/-!
# What the older preimage commits to

The preimage without a fork id holds the data themselves and no digests, and all of its parts show
where they end. So two of them are equal exactly if they were made from the same data.
-/

namespace Utxo

/-! ## Inputs as they are written -/

def TransactionInput.content (input : TransactionInput) : (Outpoint × Bytes) × UInt32 :=
  ((input.outpoint, input.unlocking.encode), input.sequence)

def TransactionInput.encodeContent (content : (Outpoint × Bytes) × UInt32) : Bytes :=
  content.1.1.encode ++ CompactSize.frame content.1.2 ++ Bytes.ofUInt32 content.2

theorem TransactionInput.selfDelimiting_encode :
    SelfDelimiting (fun content => content.1.2.length < UInt64.size) encodeContent :=
  (CompactSize.selfDelimiting_frame.prod Outpoint.length_encode
    Outpoint.encode_injective).prod_field Bytes.length_ofUInt32 Bytes.ofUInt32_injective

namespace Transaction

section

variable {tx : Transaction} {i : Nat} {s : Bytes} {f : SigHashFlags}

theorem content_copiedInput (k : Nat) (input : TransactionInput) :
    (copiedInput i s f k input).content =
      if k = i then ((input.outpoint, s), input.sequence)
      else ((input.outpoint, []), if f.base = .all then input.sequence else 0) := by
  unfold copiedInput TransactionInput.content
  split
  · rw [Script.encode_decode]
  · rfl

theorem copiedInput_of_mem {input : TransactionInput} (h : input ∈ tx.copiedInputs i s f) :
    ∃ k original, input = copiedInput i s f k original := by
  have hmapIdx : input ∈ tx.inputs.mapIdx (copiedInput i s f) := by
    unfold copiedInputs at h
    split at h
    · exact List.mem_of_getElem? (Option.mem_toList.mp h)
    · exact h
  obtain ⟨k, hk, rfl⟩ := List.mem_mapIdx.mp hmapIdx
  exact ⟨k, _, rfl⟩

theorem length_script_copied (hs : s.length < UInt64.size) :
    ∀ input ∈ tx.copiedInputs i s f, input.content.1.2.length < UInt64.size := by
  intro input hinput
  obtain ⟨k, original, rfl⟩ := copiedInput_of_mem hinput
  rw [content_copiedInput]
  split
  · exact hs
  · exact (by decide : 0 < UInt64.size)

theorem length_copied_lt (hindex : i < tx.inputs.length) (h : tx.inputs.length < UInt64.size) :
    (tx.copiedInputs i s f).length < UInt64.size := by
  rw [length_copiedInputs hindex]
  split
  · decide
  · exact h

/-- Where the signed input stands in the copy. -/
theorem content_signed :
    ((tx.copiedInputs i s f).map (·.content))[if f.anyoneCanPay then 0 else i]? =
      tx.inputs[i]?.map fun input => ((input.outpoint, s), input.sequence) := by
  unfold copiedInputs
  split
  · rw [List.getElem?_mapIdx]
    cases tx.inputs[i]? with
    | none => rfl
    | some input => simp [content_copiedInput]
  · rw [List.getElem?_map, List.getElem?_mapIdx, Option.map_map]
    congr 1
    funext input
    exact (content_copiedInput i input).trans (if_pos rfl)

theorem outpoints_copied (hpay : f.anyoneCanPay = false) :
    ((tx.copiedInputs i s f).map (·.content)).map (·.1.1) = tx.inputs.map (·.outpoint) := by
  unfold copiedInputs
  rw [hpay, if_neg (by decide)]
  apply List.ext_getElem?
  intro k
  simp only [List.getElem?_map, List.getElem?_mapIdx, Option.map_map]
  congr 1
  funext input
  simp only [Function.comp_apply, content_copiedInput]
  split <;> rfl

theorem sequences_copied (hpay : f.anyoneCanPay = false) (hbase : f.base = .all) :
    ((tx.copiedInputs i s f).map (·.content)).map (·.2) = tx.inputs.map (·.sequence) := by
  unfold copiedInputs
  rw [hpay, if_neg (by decide)]
  apply List.ext_getElem?
  intro k
  simp only [List.getElem?_map, List.getElem?_mapIdx, Option.map_map]
  congr 1
  funext input
  simp only [Function.comp_apply, content_copiedInput, hbase, if_true]
  split <;> rfl

/-! ## Outputs as they are written -/

def legacyOutputs? (tx : Transaction) (i : Nat) (f : SigHashFlags) : Option Bytes :=
  match f.base with
  | .all => some (CompactSize.encode (CompactSize.ofLength tx.outputs) ++
      tx.outputs.flatMap TransactionOutput.encode)
  | .none => some (CompactSize.encode 0)
  | .single => tx.outputs[i]?.map fun (output : TransactionOutput) =>
      CompactSize.encode (UInt64.ofNat (i + 1)) ++ (List.replicate i blankOutput).flatten ++
        output.encode

/-- A preimage in its parts. -/
theorem legacyPreimage?_ok {preimage? : Option Bytes} :
    tx.legacyPreimage? i s f = .ok preimage? ↔
      i < tx.inputs.length ∧ preimage? = (tx.legacyOutputs? i f).map fun outputs =>
        Bytes.ofUInt32 tx.version ++
          (CompactSize.encode (CompactSize.ofLength (tx.copiedInputs i s f)) ++
            ((tx.copiedInputs i s f).flatMap TransactionInput.encode ++ outputs)) ++
          Bytes.ofUInt32 tx.lockTime ++ Bytes.ofUInt32 f.byte.toUInt32 := by
  unfold legacyPreimage? legacyOutputs?
  split
  · simp
    omega
  · rename_i hindex
    have hcount : (if f.anyoneCanPay then 1 else CompactSize.ofLength tx.inputs) =
        CompactSize.ofLength (tx.copiedInputs i s f) := by
      rw [CompactSize.ofLength, CompactSize.ofLength, length_copiedInputs (by omega)]
      split <;> rfl
    simp only [flatMap_legacyInput, hcount, List.append_assoc, Except.ok.injEq]
    constructor
    · rintro rfl
      exact ⟨by omega, rfl⟩
    · rintro ⟨-, rfl⟩
      rfl

end

/-! ## Agreement -/

section

variable {tx₁ tx₂ : Transaction} {i : Nat} {s s₁ s₂ : Bytes} {f : SigHashFlags}

theorem SameSigned.content (h : SameSigned tx₁ i tx₂ i) :
    (tx₁.inputs[i]?.map fun input => ((input.outpoint, s), input.sequence)) =
      tx₂.inputs[i]?.map fun input => ((input.outpoint, s), input.sequence) := by
  have houtpoint := h.outpoint
  have hsequence := h.sequence
  cases hinput₁ : tx₁.inputs[i]? <;> cases hinput₂ : tx₂.inputs[i]? <;>
    simp_all

/-- What is left open does not get into the copied inputs. -/
theorem SameCovered.copied (hsigned : SameSigned tx₁ i tx₂ i) (h : SameCovered f tx₁ i tx₂ i) :
    (tx₁.copiedInputs i s f).map (·.content) = (tx₂.copiedInputs i s f).map (·.content) := by
  cases hpay : f.anyoneCanPay with
  | true =>
    have halone : ∀ tx : Transaction, (tx.copiedInputs i s f).map (·.content) =
        (tx.inputs[i]?.map fun input => ((input.outpoint, s), input.sequence)).toList := by
      intro tx
      rw [← content_signed (f := f), hpay, if_pos rfl]
      unfold copiedInputs
      rw [if_pos hpay]
      cases (tx.inputs.mapIdx (copiedInput i s f))[i]? <;> rfl
    rw [halone, halone, hsigned.content]
  | false =>
    apply List.ext_getElem?
    intro k
    by_cases hk : k = i
    · have hsame := hsigned.content (s := s)
      rw [← content_signed (f := f), ← content_signed (f := f), hpay, if_neg (by decide)] at hsame
      rw [hk, hsame]
    · have houtpoint := congrArg (·[k]?) (h.outpoints hpay)
      have hsequence : f.base = .all →
          tx₁.inputs[k]?.map (·.sequence) = tx₂.inputs[k]?.map (·.sequence) := by
        intro hbase
        simpa using congrArg (·[k]?) (h.sequences hpay hbase)
      unfold copiedInputs
      simp only [hpay, Bool.false_eq_true, if_false, List.getElem?_map, List.getElem?_mapIdx,
        Option.map_map, Function.comp_def, content_copiedInput, hk] at houtpoint ⊢
      cases hinput₁ : tx₁.inputs[k]? <;> cases hinput₂ : tx₂.inputs[k]? <;> simp_all

theorem copied_inj (hindex₁ : i < tx₁.inputs.length) (hindex₂ : i < tx₂.inputs.length)
    (h : (tx₁.copiedInputs i s₁ f).map (·.content) = (tx₂.copiedInputs i s₂ f).map (·.content)) :
    s₁ = s₂ ∧ tx₁.inputs[i]?.map (·.outpoint) = tx₂.inputs[i]?.map (·.outpoint) ∧
      tx₁.inputs[i]?.map (·.sequence) = tx₂.inputs[i]?.map (·.sequence) := by
  have hsigned := congrArg (·[if f.anyoneCanPay then 0 else i]?) h
  simp only [content_signed, List.getElem?_eq_getElem hindex₁, List.getElem?_eq_getElem hindex₂,
    Option.map_some, Option.some.injEq, Prod.mk.injEq] at hsigned ⊢
  obtain ⟨⟨houtpoint, hscript⟩, hsequence⟩ := hsigned
  exact ⟨hscript, houtpoint, hsequence⟩

theorem SameCovered.legacyOutputs? (h : SameCovered f tx₁ i tx₂ i) :
    tx₁.legacyOutputs? i f = tx₂.legacyOutputs? i f := by
  unfold Transaction.legacyOutputs?
  cases hbase : f.base with
  | all =>
    have houtputs := h.outputs hbase
    have hlength := congrArg List.length houtputs
    have hencode := congrArg (List.flatMap TransactionOutput.encodeContent) houtputs
    rw [List.length_map, List.length_map] at hlength
    rw [List.flatMap_map, List.flatMap_map] at hencode
    simp only [CompactSize.ofLength, hlength]
    exact congrArg (fun b => some (_ ++ b)) hencode
  | none => rfl
  | single =>
    have hmatching := congrArg (Option.map TransactionOutput.encodeContent) (h.matching hbase)
    rw [← TransactionOutput.map_encode, ← TransactionOutput.map_encode] at hmatching
    have hprefix := congrArg (Option.map fun b =>
      CompactSize.encode (UInt64.ofNat (i + 1)) ++ (List.replicate i blankOutput).flatten ++ b)
      hmatching
    rw [Option.map_map, Option.map_map] at hprefix
    exact hprefix

theorem sameOutputs_of_legacy (hcounted₁ : tx₁.LockingCounted) (hcounted₂ : tx₂.LockingCounted)
    (h : tx₁.legacyOutputs? i f = tx₂.legacyOutputs? i f) :
    (f.base = .all → tx₁.outputs.map (·.content) = tx₂.outputs.map (·.content)) ∧
      (f.base = .single →
        tx₁.outputs[i]?.map (·.content) = tx₂.outputs[i]?.map (·.content)) := by
  constructor
  · intro hbase
    simp only [legacyOutputs?, hbase, Option.some.injEq] at h
    obtain ⟨-, hencode⟩ := CompactSize.selfDelimiting_encode.split _ _ _ _ trivial trivial h
    exact TransactionOutput.selfDelimiting_encode.flatMap_inj hcounted₁ hcounted₂ hencode
  · intro hbase
    simp only [legacyOutputs?, hbase] at h
    -- The count and the blank outputs in front are the same, since the index is.
    have hinj : Function.Injective fun content : UInt64 × Bytes =>
        CompactSize.encode (UInt64.ofNat (i + 1)) ++ (List.replicate i blankOutput).flatten ++
          TransactionOutput.encodeContent content := by
      intro content content' h
      exact TransactionOutput.encodeContent_injective (List.append_cancel_left h)
    apply Option.map_injective hinj
    rw [Option.map_map, Option.map_map]
    exact h

/-- Transactions of one signed input have one preimage if they agree in all that is covered. -/
theorem legacyPreimage?_congr (hindex : i < tx₁.inputs.length) (hsigned : SameSigned tx₁ i tx₂ i)
    (hcovered : SameCovered f tx₁ i tx₂ i) :
    tx₁.legacyPreimage? i s f = tx₂.legacyPreimage? i s f := by
  have hindex₂ : i < tx₂.inputs.length := by
    have houtpoint := hsigned.outpoint
    rw [List.getElem?_eq_getElem hindex] at houtpoint
    by_contra hlt
    rw [List.getElem?_eq_none (by omega)] at houtpoint
    simp at houtpoint
  have hcopied := hcovered.copied (s := s) hsigned
  have hlength := congrArg List.length hcopied
  have hencode := congrArg (List.flatMap TransactionInput.encodeContent) hcopied
  rw [List.length_map, List.length_map] at hlength
  rw [List.flatMap_map, List.flatMap_map] at hencode
  have hencode' : (tx₁.copiedInputs i s f).flatMap TransactionInput.encode =
      (tx₂.copiedInputs i s f).flatMap TransactionInput.encode := hencode
  rw [legacyPreimage?_ok.mpr ⟨hindex, rfl⟩, legacyPreimage?_ok.mpr ⟨hindex₂, rfl⟩,
    hcovered.legacyOutputs?, hsigned.version, hsigned.lockTime, hencode', CompactSize.ofLength,
    CompactSize.ofLength, hlength]

/-- The parts of equal preimages are equal. -/
theorem same_of_legacyPreimage? {f₁ f₂ : SigHashFlags} {p : Bytes}
    (h₁ : tx₁.legacyPreimage? i s₁ f₁ = .ok (some p))
    (h₂ : tx₂.legacyPreimage? i s₂ f₂ = .ok (some p)) (hcounted₁ : tx₁.Counted)
    (hcounted₂ : tx₂.Counted) (hs₁ : s₁.length < UInt64.size) (hs₂ : s₂.length < UInt64.size) :
    f₁ = f₂ ∧ s₁ = s₂ ∧ SameSigned tx₁ i tx₂ i ∧ SameCovered f₁ tx₁ i tx₂ i := by
  obtain ⟨hindex₁, hp₁⟩ := legacyPreimage?_ok.mp h₁
  obtain ⟨hindex₂, hp₂⟩ := legacyPreimage?_ok.mp h₂
  obtain ⟨outputs₁, houtputs₁, rfl⟩ := Option.map_eq_some_iff.mp hp₁.symm
  obtain ⟨outputs₂, houtputs₂, h⟩ := Option.map_eq_some_iff.mp hp₂.symm
  obtain ⟨h, hflags⟩ := List.append_inj' h (by simp)
  obtain rfl : f₂ = f₁ := flags_injective hflags
  obtain ⟨h, hlockTime⟩ := List.append_inj' h (by simp)
  obtain ⟨hversion, h⟩ := List.append_inj h (by simp)
  -- The number of inputs is needed to see where the outputs start.
  obtain ⟨hcount, h⟩ := CompactSize.selfDelimiting_encode.split _ _ _ _ trivial trivial h
  have hlength := CompactSize.length_eq_of_ofLength (length_copied_lt hindex₂ hcounted₂.inputs)
    (length_copied_lt hindex₁ hcounted₁.inputs) hcount
  obtain ⟨hcopied, houtputs⟩ := TransactionInput.selfDelimiting_encode.flatMap_split
    (length_script_copied hs₂) (length_script_copied hs₁) hlength h
  have hsame : tx₁.legacyOutputs? i f₂ = tx₂.legacyOutputs? i f₂ := by
    rw [houtputs₁, houtputs₂, houtputs]
  obtain ⟨hscript, houtpoint, hsequence⟩ := copied_inj hindex₁ hindex₂ hcopied.symm
  obtain ⟨hall, hsingle⟩ := sameOutputs_of_legacy hcounted₁.locking hcounted₂.locking hsame
  refine ⟨rfl, hscript, ⟨?_, ?_, houtpoint, hsequence⟩, ?_, ?_, hall, hsingle⟩
  · exact Bytes.ofUInt32_injective hversion.symm
  · exact Bytes.ofUInt32_injective hlockTime.symm
  · intro hpay
    rw [← outpoints_copied hpay, ← outpoints_copied hpay, hcopied]
  · intro hpay hbase
    rw [← sequences_copied hpay hbase, ← sequences_copied hpay hbase, hcopied]

end

/-- For one input index, two preimages are equal exactly if they were made with the same flags and
script from transactions that are signed alike and agree in all that the flags cover. So whatever
else is changed, and whatever value is spent, the digest that is signed stays the same. -/
theorem legacyPreimage?_commits {tx₁ tx₂ : Transaction} {i : Nat} :
    (∀ {s₁ s₂ : Bytes} {f₁ f₂ : SigHashFlags} {p₁ p₂ : Bytes},
      tx₁.legacyPreimage? i s₁ f₁ = .ok (some p₁) → tx₂.legacyPreimage? i s₂ f₂ = .ok (some p₂) →
      tx₁.Counted → tx₂.Counted → s₁.length < UInt64.size → s₂.length < UInt64.size →
      (p₁ = p₂ ↔
        f₁ = f₂ ∧ s₁ = s₂ ∧ SameSigned tx₁ i tx₂ i ∧ SameCovered f₁ tx₁ i tx₂ i)) ∧
    ∀ {s : Bytes} {f : SigHashFlags} (v₁ v₂ : UInt64), i < tx₁.inputs.length →
      f.forkId = false → SameSigned tx₁ i tx₂ i → SameCovered f tx₁ i tx₂ i →
      tx₁.signatureHash i s f v₁ = tx₂.signatureHash i s f v₂ := by
  constructor
  · intro s₁ s₂ f₁ f₂ p₁ p₂ h₁ h₂ hcounted₁ hcounted₂ hs₁ hs₂
    constructor
    · rintro rfl
      exact same_of_legacyPreimage? h₁ h₂ hcounted₁ hcounted₂ hs₁ hs₂
    · rintro ⟨rfl, rfl, hsigned, hcovered⟩
      obtain ⟨hindex, -⟩ := legacyPreimage?_ok.mp h₁
      rw [legacyPreimage?_congr hindex hsigned hcovered, h₂] at h₁
      simpa using h₁.symm
  · intro s f v₁ v₂ hindex hfork hsigned hcovered
    unfold signatureHash
    simp only [hfork, Bool.false_eq_true, if_false,
      legacyPreimage?_congr hindex hsigned hcovered]

/-- No outputs are covered here, and of the second input only what it spends. -/
theorem legacyPreimage?_commits_none :
    let signed : TransactionInput := { outpoint := .null, sequence := 7 }
    let other : TransactionInput := { outpoint := ⟨.null, 1⟩, sequence := 8 }
    let tx₁ : Transaction :=
      { inputs := [signed, other], outputs := [{ satoshis := 5, locking := {} }] }
    let tx₂ : Transaction :=
      { inputs := [{ signed with unlocking := .decode [0x51] }, { other with sequence := 9 }] }
    let f : SigHashFlags := ⟨0x02⟩
    ∃ p, tx₁.legacyPreimage? 0 [0xac] f = .ok (some p) ∧
      tx₂.legacyPreimage? 0 [0xac] f = .ok (some p) ∧ SameSigned tx₁ 0 tx₂ 0 ∧
      SameCovered f tx₁ 0 tx₂ 0 ∧
      tx₁.signatureHash 0 [0xac] f 5 = tx₂.signatureHash 0 [0xac] f 6 := by
  intro signed other tx₁ tx₂ f
  have hbase : f.base = .none := by decide
  have hsome (tx : Transaction) (hindex : 0 < tx.inputs.length) :
      ∃ p, tx.legacyPreimage? 0 [0xac] f = .ok (some p) :=
    ⟨_, legacyPreimage?_ok.mpr ⟨hindex, by unfold legacyOutputs?; rw [hbase]; rfl⟩⟩
  obtain ⟨p₁, h₁⟩ := hsome tx₁ (by decide)
  obtain ⟨p₂, h₂⟩ := hsome tx₂ (by decide)
  have hcounted₁ : tx₁.Counted := by
    refine ⟨by decide, by decide, ?_, ?_⟩ <;> unfold Script.IsCounted <;> decide +kernel
  have hcounted₂ : tx₂.Counted := by
    refine ⟨by decide, by decide, ?_, ?_⟩ <;> unfold Script.IsCounted <;> decide +kernel
  have hsigned : SameSigned tx₁ 0 tx₂ 0 := ⟨rfl, rfl, rfl, rfl⟩
  have hcovered : SameCovered f tx₁ 0 tx₂ 0 :=
    ⟨fun _ => rfl, by simp [hbase], by simp [hbase], by simp [hbase]⟩
  obtain ⟨hiff, hhash⟩ := @legacyPreimage?_commits tx₁ tx₂ 0
  obtain rfl : p₁ = p₂ :=
    (hiff h₁ h₂ hcounted₁ hcounted₂ (by decide) (by decide)).mpr ⟨rfl, rfl, hsigned, hcovered⟩
  exact ⟨p₁, h₁, h₂, hsigned, hcovered, hhash 5 6 (by decide) (by decide) hsigned hcovered⟩

end Transaction

end Utxo
