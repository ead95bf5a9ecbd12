import Utxo.Proofs.Interpreter.Frame
import Utxo.Proofs.Interpreter.Outcomes

/-!
# Two scripts as one

A spend runs two scripts on one main stack. It differs from a run of the one script that they make
together in what becomes of the second stack: a spend clears it in between.
-/

namespace Utxo

namespace Exec

variable {setting : Setting} {t u : Thread}

/-- A script whose operations come in two parts runs the first part as operations only. -/
theorem reached_script_append (first second : List Operation) :
    (script setting (.ofOperations (first ++ second))).reached t =
      (operations setting first).reached t >>=
        (script setting (.ofOperations second)).reached := by
  rw [reached_script, Script.ofOperations, reached_operations_append, bind_assoc]
  congr 1
  funext v
  exact (reached_script (.ofOperations second) v).symm

/-- What lies on the second stack below the items that a script takes ends with the script. -/
theorem reached_script_above_alt {s : Script} (h : (script setting s).reached t = .ok u)
    (alt : Stack) : (script setting s).reached (t.above [] alt) = .ok u := by
  obtain ⟨hsound, v, hv, hclosed, rfl⟩ := reached_script_ok h
  have hframed : Framed (·.above [] alt) (operations setting s.operations) := framed_operations _
  have hclosed' : (v.above [] alt).around.isEmpty = true := List.isEmpty_iff.mpr hclosed
  rw [reached_script, hframed.reached_ok hv, ok_then, hsound]
  simp only [hclosed', if_true]
  rw [Thread.above, List.append_nil]

end Exec

theorem Script.eq_ofOperations {s : Script} (h : s.fault? = none) :
    s = .ofOperations s.operations := by
  rw [ofOperations, ← h]

/-- A spend that is accepted is accepted too if its two scripts are run as one. If the first one
succeeds and leaves nothing on the second stack, and the second one has no fault, both ways come to
the same. -/
theorem verifySpend_joined (setting : Setting) (unlocking locking : Script) :
    let joined : Script := .ofOperations (unlocking.operations ++ locking.operations)
    (verifySpend setting unlocking locking = .ok () → joined.evaluate setting = .ok ()) ∧
    ∀ stack t, unlocking.run setting = .ok stack →
      (Exec.operations setting unlocking.operations).reached {} = .ok t → t.alt = [] →
      locking.fault? = none →
      verifySpend setting unlocking locking = joined.evaluate setting := by
  intro joined
  refine ⟨fun h => ?_, fun stack t hrun ht halt hsound => ?_⟩
  · obtain ⟨t, u, hunlocking, hlocking, htrue⟩ := verifySpend_eq_ok.mp h
    obtain ⟨-, v, hv, -, rfl⟩ := Exec.reached_script_ok hunlocking
    obtain ⟨hsound, -⟩ := Exec.reached_script_ok hlocking
    have hback : ({ v with alt := [] } : Thread).above [] v.alt = v := by
      rw [Thread.above, List.append_nil, List.nil_append]
    have hbelow := Exec.reached_script_above_alt hlocking v.alt
    rw [hback, Script.eq_ofOperations hsound] at hbelow
    refine Script.evaluate_eq_ok.mpr ⟨u, ?_, htrue⟩
    rw [Exec.reached_script_append, hv, Exec.ok_then, hbelow]
  · obtain ⟨u, hu, -⟩ := Script.run_eq_ok.mp hrun
    obtain ⟨-, v, hv, -, rfl⟩ := Exec.reached_script_ok hu
    obtain rfl : v = t := Except.ok.inj (hv.symm.trans ht)
    have hself : ({ v with alt := [] } : Thread) = v := by rw [← halt]
    rw [hself] at hu
    have hspend : (Exec.spend setting unlocking locking).reached {} =
        (Exec.evaluation setting joined).reached {} := by
      rw [Exec.reached_spend_eq, hu, Exec.ok_then, Exec.reached_evaluation, Exec.reached_evaluation,
        Exec.reached_script_append, hv, Exec.ok_then, ← Script.eq_ofOperations hsound]
    rw [verifySpend, Script.evaluate, Exec.outcome_eq, Exec.outcome_eq, hspend]

/-- `2 1 TOALTSTACK` is accepted by `1ADD 3 EQUALVERIFY 1`, and `1` is refused by `ELSE`. -/
theorem verifySpend_joined_stray_else :
    let unlocking : Script := .ofOperations [.code 0x52, .code 0x51, .code Opcode.toAltStack]
    let locking : Script :=
      .ofOperations [.code Opcode.add1, .code 0x53, .code Opcode.equalVerify, .code 0x51]
    let one : Script := .ofOperations [.code 0x51]
    let stray : Script := .ofOperations [.code Opcode.opElse]
    verifySpend {} unlocking locking = .ok () ∧
      (Script.ofOperations (unlocking.operations ++ locking.operations)).evaluate {} = .ok () ∧
      one.run {} = .ok [[1]] ∧ verifySpend {} one stray = .error (.unmatched Opcode.opElse) ∧
      (Script.ofOperations (one.operations ++ stray.operations)).evaluate {} =
        .error (.unmatched Opcode.opElse) := by
  intro unlocking locking one stray
  have haccepted : verifySpend {} unlocking locking = .ok () :=
    verifySpend_eq_ok.mpr ⟨{ main := [[2]] }, { main := [[1]] }, rfl, rfl, rfl⟩
  have hrefused : verifySpend {} one stray = .error (.unmatched Opcode.opElse) := by rfl
  have hsame := (verifySpend_joined {} one stray).2 [[1]] { main := [[1]] } rfl rfl rfl rfl
  exact ⟨haccepted, (verifySpend_joined {} unlocking locking).1 haccepted, rfl, hrefused,
    hsame.symm.trans hrefused⟩

/-- An item on the second stack is there for the rest of one script, but not for a second one. -/
example :
    verifySpend {} (.ofOperations [.code 0x51, .code Opcode.toAltStack])
        (.ofOperations [.code Opcode.fromAltStack]) = .error (.emptyStack .alt) ∧
      (Script.ofOperations [.code 0x51, .code Opcode.toAltStack,
        .code Opcode.fromAltStack]).evaluate {} = .ok () := ⟨rfl, rfl⟩

end Utxo
