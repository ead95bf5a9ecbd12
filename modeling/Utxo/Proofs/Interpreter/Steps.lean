import Utxo.Interpreter.Thread

/-!
# What commands are made of

A command that is no conditional is put together from a few steps on the stacks, questions to the
signature check and failures. What holds of these and of sequences holds of the command.
-/

namespace Utxo

/-- The script is to blame for the failure, and not what it is run with. -/
def Failure.OfScript : Failure → Prop
  | noContext | noInput _ _ => False
  | _ => True

theorem Failure.ofScript_iff {failure : Failure} :
    failure.OfScript ↔ failure.code ≠ .missingContext ∧ failure.code ≠ .invalidInputIndex := by
  cases failure <;> simp [OfScript, code]

namespace Exec

/-- The property passes from the steps of commands to what is put together from them. Checking a
signature counts as one step. -/
structure Stepwise (setting : Setting) (P : ∀ {α : Type}, Exec α → Prop) : Prop where
  pure {α : Type} (a : α) : P (pure a)
  throw {α : Type} {failure : Failure} (h : failure.OfScript) : P (throw failure : Exec α)
  bind {α β : Type} {x : Exec α} {f : α → Exec β} : P x → (∀ a, P (f a)) → P (x >>= f)
  push (item : Bytes) : P (push item)
  pop : P pop
  peek : P (onMain (Stack.peek .main))
  popNumber : P (onMain (Stack.popNumber .main))
  pushAlt (item : Bytes) : P (onAlt (Stack.push item))
  popAlt : P (onAlt (Stack.pop .alt))
  checkSignature : P (checkSignature setting)

/-- The property passes also through a question to the signature check and from any failure. -/
structure Compositional (P : ∀ {α : Type}, Exec α → Prop) : Prop where
  pure {α : Type} (a : α) : P (pure a)
  throw {α : Type} (failure : Failure) : P (throw failure : Exec α)
  bind {α β : Type} {x : Exec α} {f : α → Exec β} : P x → (∀ a, P (f a)) → P (x >>= f)
  push (item : Bytes) : P (push item)
  pop : P pop
  peek : P (onMain (Stack.peek .main))
  popNumber : P (onMain (Stack.popNumber .main))
  pushAlt (item : Bytes) : P (onAlt (Stack.push item))
  popAlt : P (onAlt (Stack.pop .alt))
  ask (question : CheckedSignature) :
    P (modify fun t : Thread => { t with checked := t.checked ++ [question] })

variable {P : ∀ {α : Type}, Exec α → Prop} {setting : Setting}

/-- Conditionals are left out: they look at the flags of a thread and set them. -/
theorem Stepwise.command (h : Stepwise setting P) {c : Command} (hc : c.isConditional = false) :
    P (command setting c) := by
  cases c with
  | push data => exact h.push data
  | openBranch | flipBranch | closeBranch => simp [Command.isConditional] at hc
  | toAlt => exact h.bind h.pop fun item => h.pushAlt item
  | fromAlt => exact h.bind h.popAlt fun item => h.push item
  | dup => exact h.bind h.peek fun item => h.push item
  | addOne => exact h.bind h.popNumber fun n => h.push _
  | lessThanOrEqual => exact h.bind h.popNumber fun b => h.bind h.popNumber fun a => h.push _
  | hash160 => exact h.bind h.pop fun item => h.push _
  | equalVerify =>
    refine h.bind h.pop fun b => h.bind h.pop fun a => ?_
    split
    · exact h.throw trivial
    · exact h.pure _
  | checkSig => exact h.bind h.checkSignature fun good => h.push _
  | checkSigVerify =>
    refine h.bind h.checkSignature fun good => ?_
    split
    · exact h.throw trivial
    · exact h.pure _
  | unsupported op => exact h.throw trivial

namespace Compositional

theorem checkSignature (h : Compositional P) : P (checkSignature setting) := by
  refine h.bind h.pop fun key => h.bind h.pop fun full => ?_
  split
  · exact h.pure _
  split
  · exact h.throw _
  · refine h.bind (h.ask _) fun _ => ?_
    split
    · exact h.pure _
    · exact h.throw _

theorem stepwise (h : Compositional P) : Stepwise setting P where
  pure := h.pure
  throw _ := h.throw _
  bind := h.bind
  push := h.push
  pop := h.pop
  peek := h.peek
  popNumber := h.popNumber
  pushAlt := h.pushAlt
  popAlt := h.popAlt
  checkSignature := h.checkSignature

theorem command (h : Compositional P) {c : Command} (hc : c.isConditional = false) :
    P (command setting c) := h.stepwise.command hc

end Compositional

end Exec

end Utxo
