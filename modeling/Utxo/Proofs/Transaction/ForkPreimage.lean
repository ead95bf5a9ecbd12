import Utxo.Proofs.Bytes.SelfDelimiting
import Utxo.Proofs.Transaction.Reading
import Utxo.Transaction.Preimage

/-!
# What the newer preimage commits to

The preimage with a fork id is a row of fields that can be told apart, and some of the fields are
digests. So two preimages are equal only if they were made from the same data, up to two strings
with one digest.
-/

namespace Utxo

/-! ## Digests of strings that may be missing -/

namespace Digest

/-- The zeros stand for no string. -/
def orZero (string? : Option Bytes) : FixedBytes 32 := string?.elim (.zero 32) sha256d

/-- Two of the strings have the same digest, or one of them has the digest of no string. -/
def Clash (strings : List Bytes) : Prop :=
  (∃ a ∈ strings, ∃ b ∈ strings, a ≠ b ∧ sha256d a = sha256d b) ∨
    ∃ a ∈ strings, sha256d a = .zero 32

theorem Clash.mono {strings more : List Bytes} (h : Clash strings) (hsub : strings ⊆ more) :
    Clash more := by
  rcases h with ⟨a, ha, b, hb, h⟩ | ⟨a, ha, h⟩
  · exact .inl ⟨a, hsub ha, b, hsub hb, h⟩
  · exact .inr ⟨a, hsub ha, h⟩

theorem orZero_inj {a? b? : Option Bytes} (h : orZero a? = orZero b?) :
    a? = b? ∨ Clash (a?.toList ++ b?.toList) := by
  rcases a? with _ | a <;> rcases b? with _ | b
  · exact .inl rfl
  · exact .inr (.inr ⟨b, by simp, h.symm⟩)
  · exact .inr (.inr ⟨a, by simp, h⟩)
  · by_cases hab : a = b
    · exact .inl (congrArg some hab)
    · exact .inr (.inl ⟨a, by simp, b, by simp, hab, h⟩)

end Digest

/-! ## Items of the hashed lists -/

/-- What is written of an output. -/
def TransactionOutput.content (output : TransactionOutput) : UInt64 × Bytes :=
  (output.satoshis, output.locking.encode)

/-- An output behind its value and the length of its script. -/
def TransactionOutput.encodeContent (content : UInt64 × Bytes) : Bytes :=
  Bytes.ofUInt64 content.1 ++ CompactSize.frame content.2

theorem TransactionOutput.map_encode (output? : Option TransactionOutput) :
    output?.map encode = (output?.map content).map encodeContent := by
  rw [Option.map_map]
  rfl

theorem Outpoint.encode_injective : Function.Injective encode := by
  intro o o' h
  have hlength : o.source.wire.val.length = o'.source.wire.val.length := by
    rw [o.source.wire.property, o'.source.wire.property]
  obtain ⟨hsource, hindex⟩ := List.append_inj h hlength
  rcases o with ⟨⟨source⟩, index⟩
  rcases o' with ⟨⟨source'⟩, index'⟩
  cases Subtype.ext hsource
  cases Bytes.ofUInt32_injective hindex
  rfl

theorem Outpoint.selfDelimiting_encode : SelfDelimiting (fun _ => True) encode :=
  .of_length (by decide) length_encode encode_injective

theorem Bytes.selfDelimiting_ofUInt32 : SelfDelimiting (fun _ => True) ofUInt32 :=
  .of_length (by decide) length_ofUInt32 ofUInt32_injective

theorem TransactionOutput.encodeContent_injective : Function.Injective encodeContent := by
  intro content content' h
  obtain ⟨hsatoshis, hscript⟩ := List.append_inj h (by simp)
  exact Prod.ext (Bytes.ofUInt64_injective hsatoshis) (CompactSize.frame_injective hscript)

theorem TransactionOutput.selfDelimiting_encode :
    SelfDelimiting (fun content => content.2.length < UInt64.size) encodeContent :=
  CompactSize.selfDelimiting_frame.prod Bytes.length_ofUInt64 Bytes.ofUInt64_injective

namespace Transaction

/-! ## Fields -/

@[ext]
structure ForkFields where
  version : UInt32
  outpoints : FixedBytes 32
  sequences : FixedBytes 32
  outpoint : Outpoint
  script : Bytes
  satoshis : UInt64
  sequence : UInt32
  outputs : FixedBytes 32
  lockTime : UInt32
  flags : SigHashFlags

def ForkFields.encode (fields : ForkFields) : Bytes :=
  Bytes.ofUInt32 fields.version ++ fields.outpoints.val ++ fields.sequences.val ++
    fields.outpoint.encode ++ CompactSize.frame fields.script ++ Bytes.ofUInt64 fields.satoshis ++
    Bytes.ofUInt32 fields.sequence ++ fields.outputs.val ++ Bytes.ofUInt32 fields.lockTime ++
    Bytes.ofUInt32 fields.flags.byte.toUInt32

theorem flags_injective :
    Function.Injective fun flags : SigHashFlags => Bytes.ofUInt32 flags.byte.toUInt32 := by
  rintro ⟨b⟩ ⟨b'⟩ h
  have hnat := congrArg UInt32.toNat (Bytes.ofUInt32_injective h)
  simpa [UInt8.toNat_inj] using hnat

/-- All fields but the script have a fixed width. -/
theorem ForkFields.encode_injective : Function.Injective encode := by
  intro fields fields' h
  have hdigest : ∀ d d' : FixedBytes 32, d.val.length = d'.val.length := by
    intro d d'
    rw [d.property, d'.property]
  unfold encode at h
  -- Those behind the script are taken off from the right.
  obtain ⟨h, hflags⟩ := List.append_inj' h (by simp)
  obtain ⟨h, hlockTime⟩ := List.append_inj' h (by simp)
  obtain ⟨h, houtputs⟩ := List.append_inj' h (hdigest _ _)
  obtain ⟨h, hsequence⟩ := List.append_inj' h (by simp)
  obtain ⟨h, hsatoshis⟩ := List.append_inj' h (by simp)
  -- What is left before it has a fixed width, too.
  obtain ⟨h, hscript⟩ := List.append_inj h (by
    simp [hdigest fields.outpoints fields'.outpoints, hdigest fields.sequences fields'.sequences])
  obtain ⟨h, houtpoint⟩ := List.append_inj' h (by simp)
  obtain ⟨h, hsequences⟩ := List.append_inj' h (hdigest _ _)
  obtain ⟨hversion, houtpoints⟩ := List.append_inj' h (hdigest _ _)
  exact ForkFields.ext (Bytes.ofUInt32_injective hversion) (Subtype.ext houtpoints)
    (Subtype.ext hsequences) (Outpoint.encode_injective houtpoint)
    (CompactSize.frame_injective hscript) (Bytes.ofUInt64_injective hsatoshis)
    (Bytes.ofUInt32_injective hsequence) (Subtype.ext houtputs)
    (Bytes.ofUInt32_injective hlockTime) (flags_injective hflags)

/-! ## Hashed strings -/

def hashedOutpoints? (tx : Transaction) (flags : SigHashFlags) : Option Bytes :=
  if flags.anyoneCanPay then none else some (tx.inputs.flatMap (·.outpoint.encode))

def hashedSequences? (tx : Transaction) (flags : SigHashFlags) : Option Bytes :=
  if !flags.anyoneCanPay && flags.base == .all then
    some (tx.inputs.flatMap fun i => Bytes.ofUInt32 i.sequence)
  else none

def hashedOutputs? (tx : Transaction) (index : Nat) (flags : SigHashFlags) : Option Bytes :=
  match flags.base with
  | .all => some (tx.outputs.flatMap TransactionOutput.encode)
  | .none => none
  | .single => tx.outputs[index]?.map TransactionOutput.encode

/-- The strings that are hashed for a preimage. -/
def hashed (tx : Transaction) (index : Nat) (flags : SigHashFlags) : List Bytes :=
  (tx.hashedOutpoints? flags).toList ++ (tx.hashedSequences? flags).toList ++
    (tx.hashedOutputs? index flags).toList

def forkFields (tx : Transaction) (index : Nat) (input : TransactionInput) (script : Bytes)
    (flags : SigHashFlags) (satoshis : UInt64) : ForkFields where
  version := tx.version
  outpoints := Digest.orZero (tx.hashedOutpoints? flags)
  sequences := Digest.orZero (tx.hashedSequences? flags)
  outpoint := input.outpoint
  script
  satoshis
  sequence := input.sequence
  outputs := Digest.orZero (tx.hashedOutputs? index flags)
  lockTime := tx.lockTime
  flags

section

variable {tx : Transaction} {index : Nat} {script : Bytes} {flags : SigHashFlags}
  {satoshis : UInt64} {p : Bytes}

theorem orZero_hashedOutpoints? :
    (Digest.orZero (tx.hashedOutpoints? flags)).val =
      if flags.anyoneCanPay then zeroDigest else tx.outpointsDigest := by
  unfold hashedOutpoints?
  split <;> rfl

theorem orZero_hashedSequences? :
    (Digest.orZero (tx.hashedSequences? flags)).val =
      if !flags.anyoneCanPay && flags.base == .all then tx.sequencesDigest else zeroDigest := by
  unfold hashedSequences?
  split <;> rfl

theorem orZero_hashedOutputs? :
    (Digest.orZero (tx.hashedOutputs? index flags)).val =
      match flags.base with
      | .all => outputsDigest tx.outputs
      | .none => zeroDigest
      | .single =>
        match tx.outputs[index]? with
        | some output => outputsDigest [output]
        | none => zeroDigest := by
  unfold hashedOutputs?
  cases flags.base with
  | all => rfl
  | none => rfl
  | single =>
    cases tx.outputs[index]? with
    | none => rfl
    | some output => simp [outputsDigest, Digest.orZero]

theorem forkPreimage_ok :
    tx.forkPreimage index script flags satoshis = .ok p ↔
      ∃ input, tx.inputs[index]? = some input ∧
        p = (tx.forkFields index input script flags satoshis).encode := by
  unfold forkPreimage
  cases tx.inputs[index]? with
  | none => simp
  | some input =>
    simp only [Option.some.injEq, exists_eq_left', ForkFields.encode, forkFields,
      orZero_hashedOutpoints?, orZero_hashedSequences?, orZero_hashedOutputs?]
    constructor
    · rintro ⟨⟩
      rfl
    · rintro rfl
      rfl

theorem legacyPreimage?_ends_in_flags
    (h : tx.legacyPreimage? index script flags = .ok (some p)) :
    ∃ b, p = b ++ Bytes.ofUInt32 flags.byte.toUInt32 := by
  unfold legacyPreimage? at h
  split at h
  · simp at h
  · simp only [Except.ok.injEq, Option.map_eq_some_iff] at h
    obtain ⟨outputs, -, rfl⟩ := h
    exact ⟨_, rfl⟩

end

/-! ## Agreement -/

/-- The transactions agree in what a signature for one input always covers of them. -/
structure SameSigned (tx₁ : Transaction) (i : Nat) (tx₂ : Transaction) (j : Nat) : Prop where
  version : tx₁.version = tx₂.version
  lockTime : tx₁.lockTime = tx₂.lockTime
  outpoint : tx₁.inputs[i]?.map (·.outpoint) = tx₂.inputs[j]?.map (·.outpoint)
  sequence : tx₁.inputs[i]?.map (·.sequence) = tx₂.inputs[j]?.map (·.sequence)

/-- The transactions agree in what the flags let a signature cover besides. -/
structure SameCovered (flags : SigHashFlags) (tx₁ : Transaction) (i : Nat) (tx₂ : Transaction)
    (j : Nat) : Prop where
  outpoints : flags.anyoneCanPay = false →
    tx₁.inputs.map (·.outpoint) = tx₂.inputs.map (·.outpoint)
  sequences : flags.anyoneCanPay = false → flags.base = .all →
    tx₁.inputs.map (·.sequence) = tx₂.inputs.map (·.sequence)
  outputs : flags.base = .all → tx₁.outputs.map (·.content) = tx₂.outputs.map (·.content)
  matching : flags.base = .single →
    tx₁.outputs[i]?.map (·.content) = tx₂.outputs[j]?.map (·.content)

/-- Every locking script is short enough for the 64 bits of its length, as everything is that fits
into memory. -/
def LockingCounted (tx : Transaction) : Prop := ∀ output ∈ tx.outputs, output.locking.IsCounted

section

variable {tx₁ tx₂ : Transaction} {i j : Nat} {flags : SigHashFlags}

theorem SameCovered.hashedOutpoints? (h : SameCovered flags tx₁ i tx₂ j) :
    tx₁.hashedOutpoints? flags = tx₂.hashedOutpoints? flags := by
  unfold Transaction.hashedOutpoints?
  cases hpay : flags.anyoneCanPay with
  | true => rfl
  | false =>
    have houtpoints := congrArg (List.flatMap Outpoint.encode) (h.outpoints hpay)
    rw [List.flatMap_map, List.flatMap_map] at houtpoints
    exact congrArg some houtpoints

theorem SameCovered.hashedSequences? (h : SameCovered flags tx₁ i tx₂ j) :
    tx₁.hashedSequences? flags = tx₂.hashedSequences? flags := by
  unfold Transaction.hashedSequences?
  split
  · rename_i hall
    simp only [Bool.and_eq_true, Bool.not_eq_true', beq_iff_eq] at hall
    have hsequences := congrArg (List.flatMap Bytes.ofUInt32) (h.sequences hall.1 hall.2)
    rw [List.flatMap_map, List.flatMap_map] at hsequences
    exact congrArg some hsequences
  · rfl

theorem SameCovered.hashedOutputs? (h : SameCovered flags tx₁ i tx₂ j) :
    tx₁.hashedOutputs? i flags = tx₂.hashedOutputs? j flags := by
  unfold Transaction.hashedOutputs?
  cases hbase : flags.base with
  | all =>
    have houtputs := congrArg (List.flatMap TransactionOutput.encodeContent) (h.outputs hbase)
    rw [List.flatMap_map, List.flatMap_map] at houtputs
    exact congrArg some houtputs
  | none => rfl
  | single =>
    simp only
    rw [TransactionOutput.map_encode, TransactionOutput.map_encode, h.matching hbase]

theorem sameCovered_of_hashed (hcounted₁ : tx₁.LockingCounted) (hcounted₂ : tx₂.LockingCounted)
    (houtpoints : tx₁.hashedOutpoints? flags = tx₂.hashedOutpoints? flags)
    (hsequences : tx₁.hashedSequences? flags = tx₂.hashedSequences? flags)
    (houtputs : tx₁.hashedOutputs? i flags = tx₂.hashedOutputs? j flags) :
    SameCovered flags tx₁ i tx₂ j := by
  constructor
  · intro hpay
    simp only [hashedOutpoints?, hpay, Bool.false_eq_true, if_false,
      Option.some.injEq] at houtpoints
    exact Outpoint.selfDelimiting_encode.flatMap_inj (by simp) (by simp) houtpoints
  · intro hpay hbase
    simp only [hashedSequences?, hpay, hbase] at hsequences
    exact Bytes.selfDelimiting_ofUInt32.flatMap_inj (by simp) (by simp) (Option.some.inj hsequences)
  · intro hbase
    simp only [hashedOutputs?, hbase, Option.some.injEq] at houtputs
    -- There is no count in front of the outputs, but each of them shows its own end.
    exact TransactionOutput.selfDelimiting_encode.flatMap_inj hcounted₁ hcounted₂ houtputs
  · intro hbase
    simp only [hashedOutputs?, hbase] at houtputs
    rw [TransactionOutput.map_encode, TransactionOutput.map_encode] at houtputs
    exact Option.map_injective TransactionOutput.encodeContent_injective houtputs

variable {input₁ input₂ : TransactionInput} {s s₁ s₂ : Bytes} {v v₁ v₂ : UInt64}

theorem sameSigned_of_forkFields {f₁ f₂ : SigHashFlags} (hinput₁ : tx₁.inputs[i]? = some input₁)
    (hinput₂ : tx₂.inputs[j]? = some input₂)
    (h : tx₁.forkFields i input₁ s₁ f₁ v₁ = tx₂.forkFields j input₂ s₂ f₂ v₂) :
    SameSigned tx₁ i tx₂ j := by
  refine ⟨congrArg ForkFields.version h, congrArg ForkFields.lockTime h, ?_, ?_⟩
  · rw [hinput₁, hinput₂]
    exact congrArg (fun fields => some fields.outpoint) h
  · rw [hinput₁, hinput₂]
    exact congrArg (fun fields => some fields.sequence) h

theorem forkFields_congr (hinput₁ : tx₁.inputs[i]? = some input₁)
    (hinput₂ : tx₂.inputs[j]? = some input₂) (hsigned : SameSigned tx₁ i tx₂ j)
    (hcovered : SameCovered flags tx₁ i tx₂ j) :
    tx₁.forkFields i input₁ s flags v = tx₂.forkFields j input₂ s flags v := by
  have houtpoint := hsigned.outpoint
  have hsequence := hsigned.sequence
  rw [hinput₁, hinput₂] at houtpoint hsequence
  exact ForkFields.ext hsigned.version (congrArg Digest.orZero hcovered.hashedOutpoints?)
    (congrArg Digest.orZero hcovered.hashedSequences?) (Option.some.inj houtpoint) rfl rfl
    (Option.some.inj hsequence) (congrArg Digest.orZero hcovered.hashedOutputs?)
    hsigned.lockTime rfl

theorem sameCovered_or_clash (hcounted₁ : tx₁.LockingCounted) (hcounted₂ : tx₂.LockingCounted)
    (h : tx₁.forkFields i input₁ s₁ flags v₁ = tx₂.forkFields j input₂ s₂ flags v₂) :
    SameCovered flags tx₁ i tx₂ j ∨ Digest.Clash (tx₁.hashed i flags ++ tx₂.hashed j flags) := by
  by_cases hclash : Digest.Clash (tx₁.hashed i flags ++ tx₂.hashed j flags)
  · exact .inr hclash
  · left
    have hsame : ∀ a? b? : Option Bytes,
        a?.toList ++ b?.toList ⊆ tx₁.hashed i flags ++ tx₂.hashed j flags →
        Digest.orZero a? = Digest.orZero b? → a? = b? := by
      intro a? b? hsub hdigest
      exact (Digest.orZero_inj hdigest).resolve_right fun h => hclash (h.mono hsub)
    apply sameCovered_of_hashed hcounted₁ hcounted₂
    · exact hsame _ _ (by grind [hashed]) (congrArg ForkFields.outpoints h)
    · exact hsame _ _ (by grind [hashed]) (congrArg ForkFields.sequences h)
    · exact hsame _ _ (by grind [hashed]) (congrArg ForkFields.outputs h)

end

/-- Equal preimages were made with the same flags, script and value, for inputs that are signed
alike. They cover the same lists, too, unless two different strings that were hashed for them have
the same digest, or one has the digest that stands for no string. Nothing else goes into a
preimage, and the flags at its end tell it from one of the older kind. -/
theorem forkPreimage_commits {tx₁ tx₂ : Transaction} {i j : Nat} {s₁ s₂ : Bytes}
    {f₁ f₂ : SigHashFlags} {v₁ v₂ : UInt64} {p₁ p₂ : Bytes}
    (h₁ : tx₁.forkPreimage i s₁ f₁ v₁ = .ok p₁) (h₂ : tx₂.forkPreimage j s₂ f₂ v₂ = .ok p₂) :
    (p₁ = p₂ → f₁ = f₂ ∧ s₁ = s₂ ∧ v₁ = v₂ ∧ SameSigned tx₁ i tx₂ j) ∧
    (p₁ = p₂ → tx₁.LockingCounted → tx₂.LockingCounted →
      SameCovered f₁ tx₁ i tx₂ j ∨ Digest.Clash (tx₁.hashed i f₁ ++ tx₂.hashed j f₂)) ∧
    (f₁ = f₂ → s₁ = s₂ → v₁ = v₂ → SameSigned tx₁ i tx₂ j → SameCovered f₁ tx₁ i tx₂ j →
      p₁ = p₂) ∧
    ∀ (tx : Transaction) (k : Nat) (s : Bytes) (f : SigHashFlags) (q : Bytes),
      tx.legacyPreimage? k s f = .ok (some q) → f₁.forkId = true → f.forkId = false → p₁ ≠ q := by
  obtain ⟨input₁, hinput₁, rfl⟩ := forkPreimage_ok.mp h₁
  obtain ⟨input₂, hinput₂, rfl⟩ := forkPreimage_ok.mp h₂
  refine ⟨?_, ?_, ?_, ?_⟩
  · intro h
    have hfields := ForkFields.encode_injective h
    exact ⟨congrArg ForkFields.flags hfields, congrArg ForkFields.script hfields,
      congrArg ForkFields.satoshis hfields, sameSigned_of_forkFields hinput₁ hinput₂ hfields⟩
  · intro h hcounted₁ hcounted₂
    have hfields := ForkFields.encode_injective h
    obtain rfl : f₁ = f₂ := congrArg ForkFields.flags hfields
    exact sameCovered_or_clash hcounted₁ hcounted₂ hfields
  · rintro rfl rfl rfl hsigned hcovered
    exact congrArg ForkFields.encode (forkFields_congr hinput₁ hinput₂ hsigned hcovered)
  · intro tx k s f q hq hfork hlegacy heq
    obtain ⟨b, rfl⟩ := legacyPreimage?_ends_in_flags hq
    obtain ⟨-, hflags⟩ := List.append_inj' heq (by simp)
    obtain rfl : f₁ = f := flags_injective hflags
    simp [hlegacy] at hfork

/-- Only the signed input and its own output count here, and they stand at different places. -/
theorem forkPreimage_commits_single :
    let paid : TransactionOutput := { satoshis := 5, locking := .decode [0x51] }
    let tx₁ : Transaction := { inputs := [{ outpoint := .null, sequence := 7 }], outputs := [paid] }
    let tx₂ : Transaction :=
      { inputs := [{ outpoint := .null },
          { outpoint := .null, unlocking := .decode [0], sequence := 7 }]
        outputs := [{ satoshis := 1, locking := {} }, { paid with range := ⟨3, 13⟩ }] }
    let flags : SigHashFlags := ⟨0xc3⟩
    ∃ p q, tx₁.forkPreimage 0 [0xac] flags 9 = .ok p ∧ tx₂.forkPreimage 1 [0xac] flags 9 = .ok p ∧
      SameSigned tx₁ 0 tx₂ 1 ∧
      (SameCovered flags tx₁ 0 tx₂ 1 ∨ Digest.Clash (tx₁.hashed 0 flags ++ tx₂.hashed 1 flags)) ∧
      tx₁.legacyPreimage? 0 [0xac] ⟨0x83⟩ = .ok (some q) ∧ p ≠ q := by
  intro paid tx₁ tx₂ flags
  obtain ⟨p₁, h₁⟩ : ∃ p, tx₁.forkPreimage 0 [0xac] flags 9 = .ok p := ⟨_, rfl⟩
  obtain ⟨p₂, h₂⟩ : ∃ p, tx₂.forkPreimage 1 [0xac] flags 9 = .ok p := ⟨_, rfl⟩
  obtain ⟨q, hq⟩ : ∃ q, tx₁.legacyPreimage? 0 [0xac] ⟨0x83⟩ = .ok (some q) := ⟨_, rfl⟩
  have hcounted₁ : tx₁.LockingCounted := by
    unfold LockingCounted Script.IsCounted
    decide +kernel
  have hcounted₂ : tx₂.LockingCounted := by
    unfold LockingCounted Script.IsCounted
    decide +kernel
  have hpay : flags.anyoneCanPay = true := by decide
  have hbase : flags.base = .single := by decide
  obtain ⟨hsigned, hcovered, hsame, hlegacy⟩ := forkPreimage_commits h₁ h₂
  obtain rfl : p₁ = p₂ := by
    apply hsame rfl rfl rfl
    · exact ⟨rfl, rfl, rfl, rfl⟩
    · exact ⟨by simp [hpay], by simp [hpay], by simp [hbase], fun _ => rfl⟩
  exact ⟨p₁, q, h₁, h₂, (hsigned rfl).2.2.2, hcovered rfl hcounted₁ hcounted₂, hq,
    hlegacy _ _ _ _ _ hq (by decide) (by decide)⟩

end Transaction

end Utxo
