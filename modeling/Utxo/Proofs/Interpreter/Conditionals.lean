import Utxo.Proofs.Interpreter.Blocks

/-!
# What conditionals do to the flags

A thread keeps a flag for each open branch and looks at every conditional, also where nothing runs.
-/

namespace Utxo

open Exec

/-! ## Which operations are conditionals -/

theorem LengthForm.isPush_opcode {form : LengthForm} {n : Nat} (fits : form.Fits n) :
    (form.opcode n).isPush = true := by
  cases form with
  | direct =>
    -- There are few enough lengths to look at each of them.
    have hall : ∀ m < 76, Opcode.isPush (.ofNat m) = true := by decide
    exact hall n (Nat.lt_succ_of_le fits.2)
  | one | two | four => rfl

theorem Command.ofOperation_push {form : LengthForm} {data : Bytes}
    {fits : form.Fits data.length} : ofOperation (.push form data fits) = push data := by
  have hpush : (Operation.push form data fits).opcode.isPush = true :=
    LengthForm.isPush_opcode fits
  rw [ofOperation, if_pos hpush]
  rfl

@[simp] theorem Command.ofOperation_opener (wanted : Bool) :
    ofOperation (.opener wanted) = openBranch wanted := by
  cases wanted <;> rfl

@[simp] theorem Command.ofOperation_else : ofOperation (.code Opcode.opElse) = flipBranch := rfl

@[simp] theorem Command.ofOperation_endIf : ofOperation (.code Opcode.opEndIf) = closeBranch := rfl

/-- There are four kinds of operations. -/
theorem Command.kinds (op : Operation) :
    (ofOperation op).isConditional = false ∨ (∃ wanted, op = .opener wanted) ∨
      op = .code Opcode.opElse ∨ op = .code Opcode.opEndIf := by
  cases op with
  | push form data fits =>
    left
    rw [ofOperation_push]
    rfl
  | code op =>
    have hall : ∀ n < UInt8.size, (ofOperation (.code (.ofNat n))).isConditional = false ∨
        (.ofNat n : Opcode) = Opcode.opIf ∨ (.ofNat n : Opcode) = Opcode.opNotIf ∨
        (.ofNat n : Opcode) = Opcode.opElse ∨ (.ofNat n : Opcode) = Opcode.opEndIf := by
      decide +kernel
    have hop := hall op.toNat op.toNat_lt
    rw [UInt8.ofNat_toNat] at hop
    rcases hop with hplain | rfl | rfl | rfl | rfl
    · exact Or.inl hplain
    · exact Or.inr (Or.inl ⟨true, rfl⟩)
    · exact Or.inr (Or.inl ⟨false, rfl⟩)
    · exact Or.inr (Or.inr (Or.inl rfl))
    · exact Or.inr (Or.inr (Or.inr rfl))

namespace Exec

variable {setting : Setting} {t u : Thread}

/-! ## One operation -/

theorem reached_operation_on (op : Operation) (hon : t.executing = true) :
    (operation setting op).reached t = (command setting (.ofOperation op)).reached t := by
  unfold operation
  rw [reached_get, if_pos (by simp [hon])]

theorem reached_operation_conditional {op : Operation}
    (hop : (Command.ofOperation op).isConditional = true) :
    (operation setting op).reached t = (command setting (.ofOperation op)).reached t := by
  unfold operation
  rw [reached_get, if_pos (by simp [hop])]

theorem reached_operation_off {op : Operation}
    (hop : (Command.ofOperation op).isConditional = false) (hoff : t.executing = false) :
    (operation setting op).reached t = .ok t := by
  unfold operation
  rw [reached_get, if_neg (by simp [hop, hoff]), reached_pure]

theorem runFrom_openBranch_full (wanted : Bool) (hfull : setting.maxDepth ≤ t.around.length) :
    (openBranch setting wanted).runFrom t = (.error (.tooDeep setting.maxDepth), t) := by
  rw [openBranch, Stateful.runFrom_get_bind]
  dsimp only
  rw [if_pos hfull]
  rfl

theorem runFrom_flipBranch_outside (h : t.around = []) :
    flipBranch.runFrom t = (.error (.unmatched Opcode.opElse), t) := by
  rw [flipBranch, Stateful.runFrom_get_bind, h]
  rfl

theorem runFrom_closeBranch_outside (h : t.around = []) :
    closeBranch.runFrom t = (.error (.unmatched Opcode.opEndIf), t) := by
  rw [closeBranch, Stateful.runFrom_get_bind, h]
  rfl

theorem reached_openBranch_off (wanted : Bool) (hoff : t.executing = false)
    (hroom : t.around.length < setting.maxDepth) :
    (openBranch setting wanted).reached t = .ok (t.under (false :: t.around) false) := by
  unfold openBranch
  rw [reached_get, if_neg (by omega), if_neg (by simp [hoff]), hoff]
  rfl

theorem reached_openBranch_on (wanted : Bool) (hon : t.executing = true)
    (hroom : t.around.length < setting.maxDepth) :
    (openBranch setting wanted).reached t =
      match (onMain (Stack.popBool .main)).runFrom t with
      | (.ok condition, u) => .ok (u.under (true :: t.around) (condition == wanted))
      | (.error failure, _) => .error failure := by
  unfold openBranch
  rw [reached_get, if_neg (by omega), if_pos hon, reached_bind, Stateful.runFrom_map,
    runFrom_onMain]
  rcases (Stack.popBool .main).runFrom t.main with ⟨_ | condition, main⟩
  · rfl
  · simp only [reached_modify, hon]
    rfl

theorem reached_flipBranch {outer : Bool} {around : List Bool} (h : t.around = outer :: around) :
    flipBranch.reached t = .ok (t.under t.around (outer && !t.executing)) := by
  unfold flipBranch
  rw [reached_get, h]
  rfl

theorem reached_closeBranch {outer : Bool} {around : List Bool} (h : t.around = outer :: around) :
    closeBranch.reached t = .ok (t.under around outer) := by
  unfold closeBranch
  rw [reached_get, h]
  rfl

/-! ## Several operations -/

theorem reached_operations_cons (op : Operation) (rest : List Operation) :
    (operations setting (op :: rest)).reached t =
      (operation setting op).reached t >>= (operations setting rest).reached := by
  rw [operations, reached_then]

theorem reached_operations_append (first second : List Operation) :
    (operations setting (first ++ second)).reached t =
      (operations setting first).reached t >>= (operations setting second).reached := by
  induction first generalizing t with
  | nil => rfl
  | cons op first ih =>
    rw [List.cons_append, reached_operations_cons, reached_operations_cons, bind_assoc]
    congr 1
    funext u
    exact ih

theorem reached_else_on {around : List Bool} (h : t.around = true :: around) :
    (operation setting (.code Opcode.opElse)).reached t = .ok (t.under t.around !t.executing) := by
  rw [reached_operation_conditional rfl, Command.ofOperation_else, command, reached_flipBranch h,
    Bool.true_and]

theorem reached_endIf {outer : Bool} {around : List Bool} (h : t.around = outer :: around) :
    (operation setting (.code Opcode.opEndIf)).reached t = .ok (t.under around outer) := by
  rw [reached_operation_conditional rfl, Command.ofOperation_endIf, command, reached_closeBranch h]

/-! ## What an operation that succeeds does to the open branches -/

theorem around_of_plain {op : Operation} (hop : (Command.ofOperation op).isConditional = false)
    (h : (operation setting op).reached t = .ok u) : u.around = t.around := by
  cases ht : t.executing with
  | true =>
    rw [reached_operation_on op ht] at h
    exact ((ignoresFlags_command setting hop).flags_reached h).1
  | false =>
    rw [reached_operation_off hop ht] at h
    cases h
    rfl

theorem around_of_opener {wanted : Bool}
    (h : (operation setting (.opener wanted)).reached t = .ok u) :
    t.around.length < setting.maxDepth ∧ u.around.length = t.around.length + 1 := by
  rw [reached_operation_conditional (by rw [Command.ofOperation_opener]; rfl),
    Command.ofOperation_opener, command] at h
  by_cases hroom : t.around.length < setting.maxDepth
  · refine ⟨hroom, ?_⟩
    cases ht : t.executing with
    | true =>
      rw [reached_openBranch_on wanted ht hroom] at h
      split at h
      · cases h
        rfl
      · cases h
    | false =>
      rw [reached_openBranch_off wanted ht hroom] at h
      cases h
      rfl
  · rw [reached_of_runFrom (runFrom_openBranch_full wanted (Nat.le_of_not_lt hroom))] at h
    cases h

theorem around_of_else (h : (operation setting (.code Opcode.opElse)).reached t = .ok u) :
    u.around = t.around ∧ t.around ≠ [] := by
  rw [reached_operation_conditional rfl, Command.ofOperation_else, command] at h
  cases ht : t.around with
  | nil =>
    rw [reached_of_runFrom (runFrom_flipBranch_outside ht)] at h
    cases h
  | cons outer around =>
    rw [reached_flipBranch ht] at h
    cases h
    exact ⟨ht, by simp⟩

theorem around_of_endIf (h : (operation setting (.code Opcode.opEndIf)).reached t = .ok u) :
    t.around.length = u.around.length + 1 := by
  rw [reached_operation_conditional rfl, Command.ofOperation_endIf, command] at h
  cases ht : t.around with
  | nil =>
    rw [reached_of_runFrom (runFrom_closeBranch_outside ht)] at h
    cases h
  | cons outer around =>
    rw [reached_closeBranch ht] at h
    cases h
    rfl

end Exec

end Utxo
