import Mathlib.Data.List.Basic
import Utxo.Proofs.Interpreter.Commands
import Utxo.Proofs.Interpreter.Outcomes

/-!
# Spending what is paid to a key hash

The main statement says which unlocking scripts spend such an output: exactly those that leave a
good signature and the key, and nothing else.
-/

namespace Utxo

/-- The script `DUP HASH160 h EQUALVERIFY CHECKSIG`, with any push of `h`. -/
structure Script.PaysToHash (s : Script) (h : Bytes) : Prop where
  noFault : s.fault? = none
  operations : ∃ push : Operation, push.operand? = some h ∧
    s.operations = [.code Opcode.dup, .code Opcode.hash160, push, .code Opcode.equalVerify,
      .code Opcode.checkSig]

namespace Exec

variable {setting : Setting} {t : Thread}

/-! ## The locking script -/

/-- Of the boolean items, only the true one is true, and only if it is alone. -/
theorem requireTrue_ofBool {good : Bool} {rest : Stack} :
    Stack.requireTrue (ScriptNumber.ofBool good :: rest) = .ok () ↔ good = true ∧ rest = [] := by
  rcases rest with _ | ⟨item, rest⟩
  · cases good with
    | true => exact ⟨fun _ => ⟨rfl, rfl⟩, fun _ => rfl⟩
    | false =>
      constructor
      · intro h
        cases h
      · rintro ⟨h, -⟩
        cases h
  · constructor
    · intro h
      cases h
    · rintro ⟨-, h⟩
      cases h

theorem reached_checkSig {check : SignatureCheck} (hcheck : setting.check? = some check)
    {key signature : Bytes} {flag : UInt8} {rest : Stack}
    (hmain : t.main = key :: (signature ++ [flag]) :: rest) :
    (command setting .checkSig).reached t =
      match check signature ⟨flag⟩ key setting.input with
      | .ok good => .ok { t with
          main := ScriptNumber.ofBool good :: rest
          checked := t.checked ++ [⟨signature, ⟨flag⟩, key, setting.input⟩] }
      | .error failure => .error failure := by
  have hrun := runFrom_checkSignature hcheck hmain
  rw [command]
  cases hgood : check signature ⟨flag⟩ key setting.input with
  | error failure =>
    rw [hgood] at hrun
    rw [reached_bind_of_error hrun]
  | ok good =>
    rw [hgood] at hrun
    rw [reached_bind_of_ok hrun]
    rfl

/-- Where `CHECKSIG` answers, it says whether the signature is good. -/
theorem checkSig_answers {check : SignatureCheck} (hcheck : setting.check? = some check)
    {key full : Bytes} {rest : Stack} {u : Thread} (hmain : t.main = key :: full :: rest)
    (hu : (command setting .checkSig).reached t = .ok u) :
    ∃ good, u.main = ScriptNumber.ofBool good :: rest ∧
      (good = true ↔ ∃ signature flag, full = signature ++ [flag] ∧
        check signature ⟨flag⟩ key setting.input = .ok true) := by
  rcases List.eq_nil_or_concat' full with rfl | ⟨signature, flag, rfl⟩
  · rw [command, reached_bind_of_ok (runFrom_checkSignature_empty hmain)] at hu
    cases hu
    exact ⟨false, rfl, by simp⟩
  · rw [reached_checkSig hcheck hmain] at hu
    cases hgood : check signature ⟨flag⟩ key setting.input with
    | error failure =>
      rw [hgood] at hu
      cases hu
    | ok good =>
      rw [hgood] at hu
      cases hu
      refine ⟨good, rfl, ?_⟩
      constructor
      · rintro rfl
        exact ⟨signature, flag, rfl, hgood⟩
      · rintro ⟨signature', flag', hfull, hgood'⟩
        obtain ⟨rfl, hflag⟩ := List.append_inj' hfull rfl
        cases hflag
        exact Except.ok.inj (hgood.symm.trans hgood')

/-- `CHECKSIG` pushes a true item just if it finds a good signature, whatever lies below. -/
theorem checkSig_pushes_true {check : SignatureCheck} (hcheck : setting.check? = some check)
    {key full : Bytes} {rest : Stack} (hmain : t.main = key :: full :: rest) :
    (∃ u, (command setting .checkSig).reached t = .ok u ∧
      u.main = ScriptNumber.ofBool true :: rest) ↔
      ∃ signature flag, full = signature ++ [flag] ∧
        check signature ⟨flag⟩ key setting.input = .ok true := by
  constructor
  · rintro ⟨u, hu, htrue⟩
    obtain ⟨good, hleft, hanswer⟩ := checkSig_answers hcheck hmain hu
    rw [htrue] at hleft
    cases good with
    | true => exact hanswer.mp rfl
    | false => cases hleft
  · rintro ⟨signature, flag, rfl, hgood⟩
    rw [reached_checkSig hcheck hmain, hgood]
    exact ⟨_, rfl, rfl⟩

/-- `CHECKSIG` leaves one true item if it finds a good signature and a key, and nothing else. -/
theorem checkSig_leaves_true {check : SignatureCheck} (hcheck : setting.check? = some check)
    (t : Thread) :
    (∃ u, (command setting .checkSig).reached t = .ok u ∧ u.main.requireTrue = .ok ()) ↔
      ∃ signature flag key, t.main = [key, signature ++ [flag]] ∧
        check signature ⟨flag⟩ key setting.input = .ok true := by
  constructor
  · rintro ⟨u, hu, htrue⟩
    have htwo : ¬ t.main.length < 2 := by
      intro hshort
      obtain ⟨v, hv⟩ := runFrom_checkSignature_short setting hshort
      rw [command, reached_bind_of_error hv] at hu
      cases hu
    rcases hmain : t.main with _ | ⟨key, _ | ⟨full, rest⟩⟩
    · simp [hmain] at htwo
    · simp [hmain] at htwo
    obtain ⟨good, hleft, hanswer⟩ := checkSig_answers hcheck hmain hu
    rw [hleft] at htrue
    obtain ⟨rfl, rfl⟩ := requireTrue_ofBool.mp htrue
    obtain ⟨signature, flag, rfl, hgood⟩ := hanswer.mp rfl
    exact ⟨signature, flag, key, rfl, hgood⟩
  · rintro ⟨signature, flag, key, hmain, hgood⟩
    rw [reached_checkSig hcheck hmain, hgood]
    exact ⟨_, rfl, rfl⟩

/-- The operations before `CHECKSIG` compare the digest of the topmost item and leave it there. -/
theorem reached_untilCheckSig {push : Operation} {h : Bytes} (hpush : push.operand? = some h)
    (hon : t.executing = true) :
    (operations setting [.code Opcode.dup, .code Opcode.hash160, push, .code Opcode.equalVerify,
      .code Opcode.checkSig]).reached t = match t.main with
      | [] => .error (.emptyStack .main)
      | key :: _ => if (Digest.hash160 key).val = h then (command setting .checkSig).reached t
        else .error (.notEqual (Digest.hash160 key).val h) := by
  have hcons : ∀ (op : Operation) (ops : List Operation) (main : Stack),
      (operations setting (op :: ops)).reached { t with main } =
        (command setting (.ofOperation op)).reached { t with main } >>=
          (operations setting ops).reached := fun op ops main => by
    have hon' : ({ t with main } : Thread).executing = true := hon
    rw [reached_operations_cons, reached_operation_on op hon']
  rw [reached_operations_cons, reached_operation_on _ hon]
  show (command setting .dup).reached _ >>= _ = _
  rw [reached_dup]
  rcases hmain : t.main with _ | ⟨key, rest⟩
  · rfl
  have hself : { t with main := key :: rest } = t := by rw [← hmain]
  simp only [ok_then]
  rw [hcons]
  show (command setting .hash160).reached _ >>= _ = _
  rw [reached_hash160, ok_then, hcons, Command.ofOperation_of_operand hpush, reached_push, ok_then,
    hcons]
  show (command setting .equalVerify).reached _ >>= _ = _
  rw [reached_equalVerify rfl]
  by_cases hdigest : (Digest.hash160 key).val = h
  · rw [if_pos hdigest, if_pos hdigest, ok_then, hcons, hself]
    exact bind_pure _
  · rw [if_neg hdigest, if_neg hdigest]
    rfl

theorem reached_paysToHash {s : Script} {h : Bytes} (hs : s.PaysToHash h)
    (hstart : t.around = []) (hon : t.executing = true) {u : Thread} :
    (script setting s).reached t = .ok u ↔
      ∃ key rest, t.main = key :: rest ∧ (Digest.hash160 key).val = h ∧
        ∃ v, (command setting .checkSig).reached t = .ok v ∧ u = { v with alt := [] } := by
  obtain ⟨push, hpush, hops⟩ := hs.operations
  rw [reached_script, hops, reached_untilCheckSig hpush hon]
  simp only [hs.noFault]
  rcases hmain : t.main with _ | ⟨key, rest⟩
  · constructor
    · intro h
      cases h
    · rintro ⟨key, rest, h, -⟩
      cases h
  by_cases hdigest : (Digest.hash160 key).val = h
  · have hclosed : ∀ v, (command setting .checkSig).reached t = .ok v →
        v.around.isEmpty = true := by
      intro v hv
      rw [((ignoresFlags_command setting rfl).flags_reached hv).1, hstart]
      rfl
    simp only [if_pos hdigest]
    rw [bind_ok]
    constructor
    · rintro ⟨v, hv, hu⟩
      rw [if_pos (hclosed v hv)] at hu
      exact ⟨key, rest, rfl, hdigest, v, hv, (Except.ok.inj hu).symm⟩
    · rintro ⟨_, _, -, -, v, hv, rfl⟩
      exact ⟨v, hv, by rw [if_pos (hclosed v hv)]⟩
  · simp only [if_neg hdigest]
    constructor
    · intro h
      cases h
    · rintro ⟨key', rest', hkey, hdigest', -⟩
      cases hkey
      exact absurd hdigest' hdigest

end Exec

/-- A script spends an output that is paid to the digest `h` exactly if it runs to its end and
leaves a key with that digest, and below it a signature that is good for that key. -/
theorem verifySpend_paysToHash (maxDepth input : Nat) (check : SignatureCheck)
    (unlocking locking : Script) (h : Bytes) (hlocking : locking.PaysToHash h) :
    let setting : Setting := { maxDepth, check? := some check, input }
    verifySpend setting unlocking locking = .ok () ↔
      ∃ signature flag key, unlocking.run setting = .ok [key, signature ++ [flag]] ∧
        (Digest.hash160 key).val = h ∧ check signature ⟨flag⟩ key input = .ok true := by
  intro setting
  have hcheck : setting.check? = some check := rfl
  rw [verifySpend_eq_ok]
  constructor
  · rintro ⟨t, u, hunlocking, hlock, htrue⟩
    obtain ⟨hclosed, hon, -⟩ := Exec.flags_of_script hunlocking rfl rfl
    obtain ⟨key, rest, hmain, hdigest, v, hv, rfl⟩ :=
      (Exec.reached_paysToHash hlocking hclosed hon).mp hlock
    obtain ⟨signature, flag, key', hmain', hgood⟩ :=
      (Exec.checkSig_leaves_true hcheck t).mp ⟨v, hv, htrue⟩
    obtain ⟨rfl, rfl⟩ := List.cons.inj (hmain.symm.trans hmain')
    exact ⟨signature, flag, key, Script.run_eq_ok.mpr ⟨t, hunlocking, hmain⟩, hdigest, hgood⟩
  · rintro ⟨signature, flag, key, hrun, hdigest, hgood⟩
    obtain ⟨t, hunlocking, hmain⟩ := Script.run_eq_ok.mp hrun
    obtain ⟨hclosed, hon, -⟩ := Exec.flags_of_script hunlocking rfl rfl
    obtain ⟨v, hv, htrue⟩ :=
      (Exec.checkSig_leaves_true hcheck t).mpr ⟨signature, flag, key, hmain, hgood⟩
    exact ⟨t, { v with alt := [] }, hunlocking,
      (Exec.reached_paysToHash hlocking hclosed hon).mpr ⟨key, _, hmain, hdigest, v, hv, rfl⟩,
      htrue⟩

theorem verifySpend_two_pushes :
    let key : Bytes := [0x02, 0xaa]
    let digest := Digest.hash160 key
    let check : SignatureCheck := fun signature _ key' _ => .ok (signature == [0x30] && key' == key)
    let unlocking : Script := .ofOperations
      [.push .direct [0x30, 0x41] (by decide), .push .direct key (by decide)]
    let locking : Script := .ofOperations
      [.code Opcode.dup, .code Opcode.hash160,
        .push .direct digest.val (by rw [digest.property]; decide),
        .code Opcode.equalVerify, .code Opcode.checkSig]
    locking.PaysToHash digest.val ∧
      verifySpend { check? := some check } unlocking locking = .ok () := by
  intro key digest check unlocking locking
  have hlocking : locking.PaysToHash digest.val := ⟨rfl, _, rfl, rfl⟩
  exact ⟨hlocking, (verifySpend_paysToHash 100 0 check unlocking locking _ hlocking).mpr
    ⟨[0x30], 0x41, key, rfl, rfl, rfl⟩⟩

end Utxo
