import Utxo.Proofs.Interpreter.KeyHash
import Utxo.Proofs.ScriptClass.Locking
import Utxo.Transaction.Spend

/-!
# Owners and spenders

The owner of an output is read off its script, and the one who spends it off the unlocking script;
neither script is run for that. Where the two scripts succeed together, both are the same party.
-/

namespace Utxo

/-! ## What the classes say about the scripts -/

namespace Script

variable {encoder : AddressEncoder} {s : Script} {party : Party}

theorem paysToHash_of_party (h : s.lockingClass? encoder = .ok (some (.party party))) :
    s.PaysToHash party.hash.val ∧ party.address = encoder party.hash := by
  unfold lockingClass? at h
  split at h
  · cases h
  rename_i hfault
  split at h
  · rename_i hash _ hpaid
    obtain ⟨form, fits, hops⟩ := paidHash?_eq_some hpaid
    cases h
    exact ⟨⟨hasFault_eq_false_iff.mp (Bool.not_eq_true _ ▸ hfault), _, rfl, hops⟩, rfl⟩
  · rename_i marker rest _ _
    rcases hrun : ((Envelope.read? marker).runFrom rest).1 with error | _ | e
    · simp [hrun] at h
    · simp [hrun] at h
    · simp [hrun] at h
  · cases h

theorem pushes_of_party (h : s.unlockingClass? encoder = some (.party party)) :
    s.fault? = none ∧ ∃ first second key, s.operations = [first, second] ∧
      (∀ op ∈ s.operations, op.isPush) ∧ second.operand? = some key ∧
      party = { address := encoder (Digest.hash160 key), hash := Digest.hash160 key,
                key? := some key } := by
  unfold unlockingClass? at h
  split at h
  · rename_i first second hfault hops
    split at h
    · rename_i hpush
      obtain ⟨key, hkey, hparty⟩ := Option.map_eq_some_iff.mp h
      cases hparty
      exact ⟨hasFault_eq_false_iff.mp hfault, first, second, key, hops,
        by simpa [hops] using hpush, hkey, rfl⟩
    · cases h
  · cases h

end Script

/-! ## Running pushes -/

namespace Exec

variable {setting : Setting}

/-- Pushes leave their operands, the last one on top. -/
theorem reached_pushes {ops : List Operation} (h : ∀ op ∈ ops, op.isPush) {t : Thread}
    (hon : t.executing = true) :
    (operations setting ops).reached t =
      .ok { t with main := (ops.map fun op => op.operand?.getD []).reverse ++ t.main } := by
  induction ops generalizing t with
  | nil => rfl
  | cons op ops ih =>
    rw [List.forall_mem_cons] at h
    have hcommand : Command.ofOperation op = .push (op.operand?.getD []) := if_pos h.1
    have hon' : ({ t with main := op.operand?.getD [] :: t.main } : Thread).executing = true := hon
    rw [reached_operations_cons, reached_operation_on op hon, hcommand, reached_push, ok_then,
      ih h.2 hon', List.map_cons, List.reverse_cons, List.append_assoc]
    rfl

theorem reached_script_pushes {s : Script} (hsound : s.fault? = none)
    (h : ∀ op ∈ s.operations, op.isPush) :
    (script setting s).reached {} =
      .ok { main := (s.operations.map fun op => op.operand?.getD []).reverse } := by
  rw [reached_script, reached_pushes h rfl, ok_then, hsound, List.append_nil]
  rfl

/-- Two pushes that spend an output paid to a key hash are a good signature and that key, and this
signature is the only one that was looked at. -/
theorem reached_spend_pushes {check : SignatureCheck} (hcheck : setting.check? = some check)
    {unlocking locking : Script} {first second : Operation} {key h : Bytes} {u : Thread}
    (hsound : unlocking.fault? = none) (hops : unlocking.operations = [first, second])
    (hpush : ∀ op ∈ unlocking.operations, op.isPush) (hkey : second.operand? = some key)
    (hlocking : locking.PaysToHash h) (hu : (spend setting unlocking locking).reached {} = .ok u) :
    (Digest.hash160 key).val = h ∧ ∃ signature flag, first.operand? = some (signature ++ [flag]) ∧
      check signature ⟨flag⟩ key setting.input = .ok true ∧
      u.checked = [⟨signature, ⟨flag⟩, key, setting.input⟩] := by
  obtain ⟨t, ht, hu, htrue⟩ := reached_spend.mp hu
  rw [reached_script_pushes hsound hpush, hops] at ht
  cases ht
  obtain ⟨key', rest, hmain, hdigest, v, hv, rfl⟩ := (reached_paysToHash hlocking rfl rfl).mp hu
  obtain ⟨signature, flag, key'', hmain', hgood⟩ :=
    (checkSig_leaves_true hcheck _).mp ⟨v, hv, htrue⟩
  rw [reached_checkSig hcheck hmain', hgood] at hv
  cases hv
  obtain ⟨rfl, -⟩ := List.cons.inj (hmain.symm.trans hmain')
  obtain ⟨rfl, hfull⟩ : key = key' ∧ first.operand?.getD [] = signature ++ [flag] := by
    simpa [hkey] using hmain'
  have hfirst : first.operand? = some (signature ++ [flag]) := by
    cases hoperand : first.operand? with
    | none => simp [hoperand] at hfull
    | some full => rw [← hfull, hoperand, Option.getD_some]
  exact ⟨hdigest, signature, flag, hfirst, hgood, rfl⟩

end Exec

/-! ## Signatures that are good -/

/-- The key has signed what the flags say of the transaction. -/
def Spend.Signed (s : Spend) (index : Nat) (key signature : Bytes) (flags : SigHashFlags) : Prop :=
  ∃ digest parsed publicKey, s.signatureHash index flags = .ok digest ∧
    Secp256k1.Signature.ofDer signature = .ok parsed ∧
    Secp256k1.PublicKey.ofBytes key = .ok publicKey ∧ parsed.verify digest.val publicKey = true

theorem Spend.check_eq_true {s : Spend} {index : Nat} {key signature : Bytes}
    {flags : SigHashFlags} :
    s.check signature flags key index = .ok true ↔ s.Signed index key signature flags := by
  unfold check Signed
  cases s.signatureHash index flags with
  | error e => simp
  | ok digest =>
    cases Secp256k1.Signature.ofDer signature with
    | error e => simp
    | ok parsed =>
      cases Secp256k1.PublicKey.ofBytes key with
      | error e => simp
      | ok publicKey => simp

theorem Transaction.verifyInput_eq_ok {tx : Transaction} {index : Nat}
    {spent : TransactionOutput} :
    tx.verifyInput index spent = .ok () ↔ ∃ input, tx.inputs[index]? = some input ∧
      ∃ u, (Exec.spend { check? := some (Spend.check ⟨tx, spent⟩), input := index }
        input.unlocking spent.locking).reached {} = .ok u := by
  unfold verifyInput
  cases tx.inputs[index]? with
  | none => simp
  | some input =>
    simp only [Option.some.injEq, exists_eq_left', ← verifySpend_eq_ok_iff_reached]
    split
    · simp_all
    · simp_all

/-- Where an input may spend an output and the scripts name an owner and a spender, these are the
same party. The spender's key is the one that signed: its signature is the only one that was
looked at. -/
theorem Transaction.spender_eq_owner (tx : Transaction) (index : Nat) (spent : TransactionOutput)
    (encoder : AddressEncoder) (input : TransactionInput) (owner spender : Party)
    (hinput : tx.inputs[index]? = some input) (hverify : tx.verifyInput index spent = .ok ())
    (howner : spent.locking.lockingClass? encoder = .ok (some (.party owner)))
    (hspender : input.unlocking.unlockingClass? encoder = some (.party spender)) :
    owner.hash = spender.hash ∧ owner.address = spender.address ∧
      ∃ key signature flags, spender.key? = some key ∧
        input.unlocking.operations.map Operation.operand? =
          [some (signature ++ [flags.byte]), some key] ∧
        Spend.Signed ⟨tx, spent⟩ index key signature flags ∧
        ((Exec.spend { check? := some (Spend.check ⟨tx, spent⟩), input := index } input.unlocking
          spent.locking).runFrom {}).2.checked = [⟨signature, flags, key, index⟩] := by
  obtain ⟨hlocking, howner⟩ := Script.paysToHash_of_party howner
  obtain ⟨hsound, first, second, key, hops, hpush, hkey, rfl⟩ := Script.pushes_of_party hspender
  obtain ⟨input', hinput', u, hspend⟩ := verifyInput_eq_ok.mp hverify
  obtain rfl : input = input' := Option.some.inj (hinput.symm.trans hinput')
  obtain ⟨hdigest, signature, flag, hfirst, hgood, hchecked⟩ :=
    Exec.reached_spend_pushes rfl hsound hops hpush hkey hlocking hspend
  have hhash : owner.hash = Digest.hash160 key := Subtype.ext hdigest.symm
  refine ⟨hhash, by rw [howner, hhash], key, signature, ⟨flag⟩, rfl, ?_,
    Spend.check_eq_true.mp hgood, by rw [Exec.runFrom_of_reached hspend, hchecked]⟩
  rw [hops, List.map_cons, List.map_singleton, hfirst, hkey]

/-- There is no output for the flags to cover, so that one is the number that is signed; the nonce
was chosen for a small signature. -/
theorem Transaction.spender_eq_owner_small :
    let key : Bytes := [0x03, 0x2b, 0xaf, 0x16, 0x3f, 0x5e, 0x27, 0x26, 0x1a, 0xb3, 0x22, 0x8e,
      0x61, 0xfb, 0x86, 0xdc, 0x98, 0x05, 0x4a, 0xbd, 0x51, 0x47, 0x51, 0xfc, 0xe9, 0x3d, 0x74,
      0x44, 0xe8, 0xfb, 0xc6, 0xa2, 0x93]
    let signature : Bytes := [0x30, 0x06, 0x02, 0x01, 0x01, 0x02, 0x01, 0x01]
    let input : TransactionInput :=
      { outpoint := ⟨⟨List.replicate 32 7, rfl⟩, 0⟩
        unlocking := .ofOperations [.push .one (signature ++ [0x03]) (by decide),
          .push .direct key (by decide)] }
    let tx : Transaction := { inputs := [input] }
    let hash := Digest.hash160 key
    let locking : Script :=
      .ofOperations (Script.payment .two hash.val (by rw [hash.property]; decide))
    let spent : TransactionOutput := { satoshis := 5000, locking }
    let party : Party := { address := Address.encode .mainnet hash, hash }
    tx.verifyInput 0 spent = .ok () ∧
      spent.locking.lockingClass? (Address.encode .mainnet) = .ok (some (.party party)) ∧
      input.unlocking.unlockingClass? (Address.encode .mainnet) =
        some (.party { party with key? := some key }) ∧
      ∃ signature flags, Spend.Signed ⟨tx, spent⟩ 0 key signature flags := by
  intro key signature input tx hash locking spent party
  have hlocking : locking.PaysToHash hash.val := ⟨rfl, _, rfl, rfl⟩
  have hgood : Spend.check ⟨tx, spent⟩ signature ⟨0x03⟩ key 0 = .ok true := by decide +kernel
  have howner : spent.locking.lockingClass? (Address.encode .mainnet) =
      .ok (some (.party party)) :=
    Script.lockingClass?_of_paidHash rfl (Script.paidHash?_payment _ _)
  have hspender : input.unlocking.unlockingClass? (Address.encode .mainnet) =
      some (.party { party with key? := some key }) := rfl
  have hverify : tx.verifyInput 0 spent = .ok () := by
    let setting : Setting := { check? := some (Spend.check ⟨tx, spent⟩) }
    have hcheck : setting.check? = some (Spend.check ⟨tx, spent⟩) := rfl
    refine verifyInput_eq_ok.mpr ⟨input, rfl, ?_⟩
    obtain ⟨v, hv, htrue⟩ :=
      (Exec.checkSig_leaves_true hcheck { main := [key, signature ++ [0x03]] }).mpr
        ⟨signature, 0x03, key, rfl, hgood⟩
    exact ⟨{ v with alt := [] }, Exec.reached_spend.mpr ⟨_,
      Exec.reached_script_pushes rfl (by decide),
      (Exec.reached_paysToHash hlocking rfl rfl).mpr ⟨key, _, rfl, rfl, v, hv, rfl⟩, htrue⟩⟩
  obtain ⟨-, -, key', signature', flags, hkey, -, hsigned, -⟩ :=
    spender_eq_owner tx 0 spent (Address.encode .mainnet) input party _ rfl hverify howner hspender
  cases hkey
  exact ⟨hverify, howner, hspender, signature', flags, hsigned⟩

end Utxo
