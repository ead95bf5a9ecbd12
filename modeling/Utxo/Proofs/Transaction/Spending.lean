import Utxo.Proofs.Interpreter.Questions
import Utxo.Transaction.Spend

/-!
# Why a spend is refused

The signature check of a spend answers every question about an input that the transaction has. So
where such an input may not spend an output, that is for a reason that the scripts give.
-/

namespace Utxo

/-! ## Spends whose check answers -/

/-- Where the check answers every question about the input, the scripts are to blame for a spend
that fails. -/
theorem verifySpend_blames_scripts {setting : Setting} {check : SignatureCheck}
    (hcheck : setting.check? = some check)
    (hanswers : ∀ signature flags key, ∃ good, check signature flags key setting.input = .ok good)
    {unlocking locking : Script} {failure : Failure}
    (h : verifySpend setting unlocking locking = .error failure) : failure.OfScript := by
  have haccounted : Exec.Accounted setting (Exec.spend setting unlocking locking) :=
    Exec.accounted_spend unlocking locking
  obtain ⟨asked, hasked⟩ := haccounted {}
  rcases hasked.failure failure h with hscript | hrefused
  · exact hscript
  · simp only [Setting.Refuses, hcheck] at hrefused
    obtain ⟨q, hq, hrefused⟩ := hrefused
    obtain ⟨good, hgood⟩ := hanswers q.signature q.flags q.key
    rw [hasked.input q hq, hgood] at hrefused
    cases hrefused

/-! ## The check of a spend -/

namespace Transaction

variable {tx : Transaction} {index : Nat}

/-- An input that is there has a digest to sign, whatever the flags and whether or not an output
stands opposite. -/
theorem exists_signatureHash (h : index < tx.inputs.length) (script : Bytes) (flags : SigHashFlags)
    (satoshis : UInt64) : ∃ digest, tx.signatureHash index script flags satoshis = .ok digest := by
  unfold signatureHash
  split
  · unfold forkPreimage
    rw [List.getElem?_eq_getElem h]
    exact ⟨_, rfl⟩
  · obtain ⟨preimage?, hpreimage⟩ : ∃ preimage?, tx.legacyPreimage? index script flags =
        .ok preimage? := by
      unfold legacyPreimage?
      rw [if_neg (Nat.not_le_of_lt h)]
      exact ⟨_, rfl⟩
    rw [hpreimage]
    cases preimage? with
    | none => exact ⟨noOutputDigest, rfl⟩
    | some preimage => exact ⟨Digest.sha256d preimage, rfl⟩

end Transaction

namespace Spend

variable {s : Spend} {index : Nat}

theorem exists_check (h : index < s.tx.inputs.length) (signature : Bytes) (flags : SigHashFlags)
    (key : Bytes) : ∃ good, s.check signature flags key index = .ok good := by
  obtain ⟨digest, hdigest⟩ : ∃ digest, s.signatureHash index flags = .ok digest :=
    Transaction.exists_signatureHash h _ flags _
  unfold check
  rw [hdigest]
  cases Secp256k1.Signature.ofDer signature with
  | error e => exact ⟨false, rfl⟩
  | ok parsed =>
    cases Secp256k1.PublicKey.ofBytes key with
    | error e => exact ⟨false, rfl⟩
    | ok publicKey => exact ⟨_, rfl⟩

/-- What cannot be read is not good, and no reason to refuse an answer. -/
theorem check_of_unreadable (h : index < s.tx.inputs.length) {signature key : Bytes}
    (flags : SigHashFlags)
    (hunreadable : (∃ e, Secp256k1.Signature.ofDer signature = .error e) ∨
      ∃ e, Secp256k1.PublicKey.ofBytes key = .error e) :
    s.check signature flags key index = .ok false := by
  obtain ⟨digest, hdigest⟩ : ∃ digest, s.signatureHash index flags = .ok digest :=
    Transaction.exists_signatureHash h _ flags _
  unfold check
  rw [hdigest]
  rcases hunreadable with ⟨e, he⟩ | ⟨e, he⟩
  · rw [he]
  · rw [he]
    cases Secp256k1.Signature.ofDer signature <;> rfl

end Spend

/-! ## Inputs -/

namespace Transaction

variable {tx : Transaction} {index : Nat} {spent : TransactionOutput}

theorem verifyInput_of_le (h : tx.inputs.length ≤ index) :
    tx.verifyInput index spent = .error (.noInput index tx.inputs.length) := by
  unfold verifyInput
  rw [List.getElem?_eq_none h]

theorem verifyInput_blames_scripts (h : index < tx.inputs.length) {e : TransactionError}
    (he : tx.verifyInput index spent = .error e) :
    ∃ failure, e = .script failure ∧ failure.OfScript := by
  unfold verifyInput at he
  rw [List.getElem?_eq_getElem h] at he
  dsimp only at he
  split at he
  · cases he
  · rename_i failure hfailure
    cases he
    exact ⟨failure, rfl, verifySpend_blames_scripts rfl (Spend.exists_check h) hfailure⟩

/-- An input is reported missing just if it is missing. Where it is there, a spend that fails does
so for a reason that the scripts give: the check of its signatures answers every question, also with
nothing opposite to sign, and says of a signature or key that cannot be read that it is not good. -/
theorem verifyInput_error (tx : Transaction) (index : Nat) (spent : TransactionOutput) :
    (∀ i count, tx.verifyInput index spent = .error (.noInput i count) ↔
      tx.inputs.length ≤ index ∧ i = index ∧ count = tx.inputs.length) ∧
    (index < tx.inputs.length →
      (∀ e, tx.verifyInput index spent = .error e → ∃ failure, e = .script failure ∧
        failure.code ≠ .missingContext ∧ failure.code ≠ .invalidInputIndex) ∧
      ∀ signature flags key,
        (∃ good, Spend.check ⟨tx, spent⟩ signature flags key index = .ok good) ∧
        ((∃ e, Secp256k1.Signature.ofDer signature = .error e) ∨
            (∃ e, Secp256k1.PublicKey.ofBytes key = .error e) →
          Spend.check ⟨tx, spent⟩ signature flags key index = .ok false)) := by
  refine ⟨fun i count => ?_, fun h => ⟨fun e he => ?_, fun signature flags key => ?_⟩⟩
  · rcases Nat.lt_or_ge index tx.inputs.length with hlt | hge
    · refine iff_of_false (fun he => ?_) fun hmissing => absurd hmissing.1 (Nat.not_le_of_lt hlt)
      obtain ⟨failure, hfailure, -⟩ := verifyInput_blames_scripts hlt he
      cases hfailure
    · rw [verifyInput_of_le hge]
      simp [hge, eq_comm]
  · obtain ⟨failure, rfl, hscript⟩ := verifyInput_blames_scripts h he
    exact ⟨failure, rfl, Failure.ofScript_iff.mp hscript⟩
  · exact ⟨Spend.exists_check h signature flags key, Spend.check_of_unreadable h flags⟩

/-- The flags ask for a single output, and there is none; neither signature nor key can be read. -/
theorem verifyInput_error_unreadable :
    let signature : Bytes := [0x30]
    let key : Bytes := [0x02]
    let input : TransactionInput :=
      { outpoint := ⟨⟨List.replicate 32 7, rfl⟩, 0⟩
        unlocking := .ofOperations [.push .direct (signature ++ [0x03]) (by decide),
          .push .direct key (by decide)] }
    let tx : Transaction := { inputs := [input] }
    let spent : TransactionOutput :=
      { satoshis := 5000, locking := .ofOperations [.code Opcode.checkSig] }
    tx.verifyInput 0 spent = .error (.script .falseResult) ∧
      Failure.falseResult.code ≠ .missingContext ∧
      (∀ forkId : Bool, Spend.check ⟨tx, spent⟩ signature ⟨if forkId then 0x43 else 0x03⟩ key 0 =
        .ok false) ∧
      tx.verifyInput 1 spent = .error (.noInput 1 1) := by
  intro signature key input tx spent
  obtain ⟨-, hthere⟩ := verifyInput_error tx 0 spent
  obtain ⟨hscripts, hcheck⟩ := hthere (by decide)
  have hfailed : tx.verifyInput 0 spent = .error (.script .falseResult) := by rfl
  obtain ⟨failure, hfailure, hcode, -⟩ := hscripts _ hfailed
  cases hfailure
  refine ⟨hfailed, hcode, fun forkId => ?_, ?_⟩
  · exact (hcheck signature _ key).2 (.inl ⟨.noSequenceLength, rfl⟩)
  · exact ((verifyInput_error tx 1 spent).1 1 1).mpr ⟨Nat.le_refl 1, rfl, rfl⟩

end Transaction

end Utxo
