import Mathlib.Logic.Basic
import Utxo.Proofs.Interpreter.Conditionals

/-! # What commands do to the stacks -/

namespace Utxo

/-! ## Pushes -/

theorem Opcode.isPush_of_smallOperand {op : Opcode} {data : Bytes}
    (h : Operation.smallOperand? op = some data) : op.isPush = true := by
  unfold Operation.smallOperand? at h
  by_cases hzero : op = Opcode.push0
  · rw [hzero]
    rfl
  by_cases hnegate : op = Opcode.push1Negate
  · rw [hnegate]
    rfl
  by_cases hsmall : Opcode.push1 ≤ op ∧ op ≤ Opcode.push16
  · have hreserved : op ≠ Opcode.reserved := by
      rintro rfl
      exact absurd hsmall.1 (by decide)
    simp [isPush, hsmall.2, hreserved]
  · simp [hzero, hnegate, hsmall] at h

/-- An operation with an operand pushes it. -/
theorem Command.ofOperation_of_operand {op : Operation} {data : Bytes}
    (h : op.operand? = some data) : ofOperation op = push data := by
  cases op with
  | push form bytes fits =>
    rw [ofOperation_push]
    exact congrArg push (Option.some.inj h)
  | code op =>
    have hpush : (Operation.code op).opcode.isPush = true := Opcode.isPush_of_smallOperand h
    rw [ofOperation, if_pos hpush, h]
    rfl

namespace Exec

variable {setting : Setting}

theorem reached_push (data : Bytes) (t : Thread) :
    (command setting (.push data)).reached t = .ok { t with main := data :: t.main } := rfl

theorem reached_dup (t : Thread) :
    (command setting .dup).reached t = match t.main with
      | [] => .error (.emptyStack .main)
      | top :: _ => .ok { t with main := top :: t.main } := by
  rcases t with ⟨_ | ⟨top, rest⟩, alt, around, executing, checked⟩ <;> rfl

theorem reached_hash160 (t : Thread) :
    (command setting .hash160).reached t = match t.main with
      | [] => .error (.emptyStack .main)
      | top :: rest => .ok { t with main := (Digest.hash160 top).val :: rest } := by
  rcases t with ⟨_ | ⟨top, rest⟩, alt, around, executing, checked⟩ <;> rfl

theorem runFrom_pop {t : Thread} {top : Bytes} {rest : Stack} (h : t.main = top :: rest) :
    pop.runFrom t = (.ok top, { t with main := rest }) := by
  rw [pop, runFrom_onMain, h]
  rfl

theorem runFrom_pop_empty {t : Thread} (h : t.main = []) :
    pop.runFrom t = (.error (.emptyStack .main), t) := by
  rw [pop, runFrom_onMain, h]
  rcases t with ⟨main, alt, around, executing, checked⟩
  cases h
  rfl

theorem reached_equalVerify {t : Thread} {a b : Bytes} {rest : Stack}
    (h : t.main = b :: a :: rest) :
    (command setting .equalVerify).reached t =
      if a = b then .ok { t with main := rest } else .error (.notEqual a b) := by
  rw [command, reached_bind_of_ok (runFrom_pop h), reached_bind_of_ok (runFrom_pop rfl)]
  by_cases hab : a = b
  · rw [if_pos hab, if_neg (not_not.mpr hab)]
    rfl
  · rw [if_neg hab, if_pos hab]
    rfl

/-! ## Numbers -/

/-- The item is gone also if it is too wide for a number. -/
theorem runFrom_popNumber {t : Thread} {item : Bytes} {rest : Stack} (h : t.main = item :: rest) :
    (onMain (Stack.popNumber .main)).runFrom t =
      (Stack.number Stack.numberWidth item, { t with main := rest }) := by
  have hpop : (Stack.pop .main).runFrom (item :: rest) = (.ok item, rest) := rfl
  rw [runFrom_onMain, h, Stack.popNumber, Stateful.runFrom_bind_of_ok hpop]
  cases Stack.number Stack.numberWidth item <;> rfl

theorem runFrom_addOne {t : Thread} {item : Bytes} {rest : Stack} {n : Int}
    (h : t.main = item :: rest) (hn : ScriptNumber.decode? Stack.numberWidth item = some n) :
    (command setting .addOne).runFrom t =
      (.ok (), { t with main := ScriptNumber.encode (n + 1) :: rest }) := by
  have hnumber : Stack.number Stack.numberWidth item = .ok n := by rw [Stack.number, hn]
  have hpop := runFrom_popNumber h
  rw [hnumber] at hpop
  rw [command, Stateful.runFrom_bind_of_ok hpop]
  rfl

theorem runFrom_addOne_wide {t : Thread} {item : Bytes} {rest : Stack}
    (h : t.main = item :: rest) (hn : ScriptNumber.decode? Stack.numberWidth item = none) :
    (command setting .addOne).runFrom t =
      (.error (.tooWide item Stack.numberWidth), { t with main := rest }) := by
  have hnumber : Stack.number Stack.numberWidth item =
      .error (.tooWide item Stack.numberWidth) := by
    rw [Stack.number, hn]
  have hpop := runFrom_popNumber h
  rw [hnumber] at hpop
  rw [command, Stateful.runFrom_bind_of_error hpop]

/-! ## Signatures -/

theorem runFrom_checkSignature_empty {t : Thread} {key : Bytes} {rest : Stack}
    (h : t.main = key :: [] :: rest) :
    (checkSignature setting).runFrom t = (.ok false, { t with main := rest }) := by
  rw [checkSignature, Stateful.runFrom_bind_of_ok (runFrom_pop h),
    Stateful.runFrom_bind_of_ok (runFrom_pop rfl)]
  rfl

theorem runFrom_checkSignature {check : SignatureCheck} (hcheck : setting.check? = some check)
    {t : Thread} {key signature : Bytes} {flag : UInt8} {rest : Stack}
    (h : t.main = key :: (signature ++ [flag]) :: rest) :
    (checkSignature setting).runFrom t =
      (check signature ⟨flag⟩ key setting.input,
        { t with
          main := rest
          checked := t.checked ++ [⟨signature, ⟨flag⟩, key, setting.input⟩] }) := by
  rw [checkSignature, Stateful.runFrom_bind_of_ok (runFrom_pop h),
    Stateful.runFrom_bind_of_ok (runFrom_pop rfl)]
  simp only [List.getLast?_concat, hcheck, List.dropLast_concat, Stateful.runFrom_bind,
    Stateful.runFrom_modify]
  cases check signature ⟨flag⟩ key setting.input <;> rfl

/-- Without two items there is nothing to check. -/
theorem runFrom_checkSignature_short (setting : Setting) {t : Thread} (h : t.main.length < 2) :
    ∃ u, (checkSignature setting).runFrom t = (.error (.emptyStack .main), u) := by
  rw [checkSignature]
  rcases hmain : t.main with _ | ⟨key, _ | ⟨full, rest⟩⟩
  · exact ⟨t, Stateful.runFrom_bind_of_error (runFrom_pop_empty hmain)⟩
  · rw [Stateful.runFrom_bind_of_ok (runFrom_pop hmain)]
    exact ⟨_, Stateful.runFrom_bind_of_error (runFrom_pop_empty rfl)⟩
  · rw [hmain, List.length_cons, List.length_cons] at h
    omega

end Exec

end Utxo
