import Utxo.Proofs.Interpreter.Refinement

/-!
# Outcomes as states that are reached

What a script or a spend comes to is settled by the state that its run reaches.
-/

namespace Utxo

namespace Exec

variable {setting : Setting} {t u : Thread}

/-! ## Runs -/

theorem outcome_eq (x : Exec Unit) (t : Thread) :
    (x.runFrom t).1 = (x.reached t).map fun _ => () := by
  unfold reached
  rcases x.runFrom t with ⟨failure | _, u⟩ <;> rfl

theorem outcome_eq_ok {x : Exec Unit} : (x.runFrom t).1 = .ok () ↔ ∃ u, x.reached t = .ok u := by
  rw [outcome_eq]
  cases x.reached t with
  | error failure => simp [Except.map]
  | ok u => simp [Except.map]

theorem reached_requireTrue :
    requireTrue.reached t = .ok u ↔ t.main.requireTrue = .ok () ∧ u = t := by
  unfold requireTrue
  rw [reached_get]
  cases t.main.requireTrue with
  | error failure => simp
  | ok _ => simp [eq_comm]

theorem reached_evaluation (s : Script) :
    (evaluation setting s).reached t = (script setting s).reached t >>= requireTrue.reached := by
  rw [evaluation, reached_then]

theorem reached_evaluation_ok {s : Script} :
    (evaluation setting s).reached t = .ok u ↔
      (script setting s).reached t = .ok u ∧ u.main.requireTrue = .ok () := by
  rw [reached_evaluation, bind_ok]
  constructor
  · rintro ⟨v, hv, h⟩
    obtain ⟨htrue, rfl⟩ := reached_requireTrue.mp h
    exact ⟨hv, htrue⟩
  · rintro ⟨hu, htrue⟩
    exact ⟨u, hu, reached_requireTrue.mpr ⟨htrue, rfl⟩⟩

/-- Two scripts run one after the other, and what the second one leaves is looked at. -/
theorem reached_spend_eq (unlocking locking : Script) :
    (spend setting unlocking locking).reached t =
      (script setting unlocking).reached t >>= (evaluation setting locking).reached :=
  reached_then _ _ t

theorem reached_spend {unlocking locking : Script} :
    (spend setting unlocking locking).reached {} = .ok u ↔
      ∃ t, (script setting unlocking).reached {} = .ok t ∧
        (script setting locking).reached t = .ok u ∧ u.main.requireTrue = .ok () := by
  rw [reached_spend_eq, bind_ok]
  exact exists_congr fun t => and_congr_right fun _ => reached_evaluation_ok

end Exec

/-! ## Scripts and spends -/

theorem Script.run_eq_ok {s : Script} {setting : Setting} {stack : Stack} :
    s.run setting = .ok stack ↔
      ∃ t, (Exec.script setting s).reached {} = .ok t ∧ t.main = stack := by
  unfold run Exec.reached
  rcases (Exec.script setting s).runFrom {} with ⟨failure | _, t⟩
  · simp
  · simp

theorem Script.run_eq_error {s : Script} {setting : Setting} {failure : Failure} :
    s.run setting = .error failure ↔ ((Exec.script setting s).runFrom {}).1 = .error failure := by
  unfold run
  rcases (Exec.script setting s).runFrom {} with ⟨failure' | _, t⟩
  · simp
  · simp

theorem Script.evaluate_eq_ok {s : Script} {setting : Setting} :
    s.evaluate setting = .ok () ↔
      ∃ t, (Exec.script setting s).reached {} = .ok t ∧ t.main.requireTrue = .ok () :=
  Exec.outcome_eq_ok.trans (exists_congr fun _ => Exec.reached_evaluation_ok)

theorem verifySpend_eq_ok_iff_reached {setting : Setting} {unlocking locking : Script} :
    verifySpend setting unlocking locking = .ok () ↔
      ∃ u, (Exec.spend setting unlocking locking).reached {} = .ok u :=
  Exec.outcome_eq_ok

theorem verifySpend_eq_ok {setting : Setting} {unlocking locking : Script} :
    verifySpend setting unlocking locking = .ok () ↔
      ∃ t u, (Exec.script setting unlocking).reached {} = .ok t ∧
        (Exec.script setting locking).reached t = .ok u ∧ u.main.requireTrue = .ok () := by
  rw [verifySpend_eq_ok_iff_reached, exists_comm]
  exact exists_congr fun u => Exec.reached_spend

end Utxo
