import Utxo.Proofs.Interpreter.Steps

/-!
# Commands and the flags of open branches

A command that is no conditional neither looks at the flags of a thread nor changes them.
-/

namespace Utxo

/-- The same stacks and questions, under other flags. -/
def Thread.under (t : Thread) (around : List Bool) (executing : Bool) : Thread :=
  { t with around, executing }

@[simp] theorem Thread.under_under (t : Thread) (around around' : List Bool) (e e' : Bool) :
    (t.under around e).under around' e' = t.under around' e' := rfl

@[simp] theorem Thread.around_under (t : Thread) (around : List Bool) (e : Bool) :
    (t.under around e).around = around := rfl

@[simp] theorem Thread.executing_under (t : Thread) (around : List Bool) (e : Bool) :
    (t.under around e).executing = e := rfl

theorem Thread.under_self {t : Thread} {around : List Bool} {e : Bool} (ha : t.around = around)
    (he : t.executing = e) : t.under around e = t := by
  subst ha he
  rfl

namespace Exec

/-! ## Where a run gets to -/

/-- The state that a run reaches, or why it fails. -/
def reached (x : Exec Unit) (t : Thread) : Except Failure Thread :=
  match x.runFrom t with
  | (.ok (), u) => .ok u
  | (.error failure, _) => .error failure

theorem runFrom_of_reached {x : Exec Unit} {t u : Thread} (h : x.reached t = .ok u) :
    x.runFrom t = (.ok (), u) := by
  unfold reached at h
  split at h
  · cases h
    assumption
  · cases h

theorem exists_runFrom_of_reached {x : Exec Unit} {t : Thread} {failure : Failure}
    (h : x.reached t = .error failure) : ∃ u, x.runFrom t = (.error failure, u) := by
  unfold reached at h
  split at h
  · cases h
  · cases h
    exact ⟨_, by assumption⟩

theorem reached_of_runFrom {x : Exec Unit} {t : Thread} {outcome : Except Failure Unit}
    {u : Thread} (h : x.runFrom t = (outcome, u)) :
    x.reached t = outcome.map fun _ => u := by
  unfold reached
  rw [h]
  cases outcome <;> rfl

@[simp] theorem reached_pure (t : Thread) : (pure () : Exec Unit).reached t = .ok t := rfl

@[simp] theorem reached_throw (failure : Failure) (t : Thread) :
    (throw failure : Exec Unit).reached t = .error failure := rfl

@[simp] theorem reached_modify (f : Thread → Thread) (t : Thread) :
    (modify f : Exec Unit).reached t = .ok (f t) := rfl

@[simp] theorem ok_then (t : Thread) (f : Thread → Except Failure Thread) :
    (Except.ok t >>= f) = f t := rfl

@[simp] theorem error_then (failure : Failure) (f : Thread → Except Failure Thread) :
    (Except.error failure >>= f) = .error failure := rfl

theorem reached_bind {α : Type} (x : Exec α) (f : α → Exec Unit) (t : Thread) :
    reached (x >>= f) t = match x.runFrom t with
      | (.ok a, u) => (f a).reached u
      | (.error failure, _) => .error failure := by
  unfold reached
  rw [Stateful.runFrom_bind]
  rcases x.runFrom t with ⟨_ | a, u⟩ <;> rfl

theorem reached_bind_of_ok {α : Type} {x : Exec α} {f : α → Exec Unit} {t u : Thread} {a : α}
    (h : x.runFrom t = (.ok a, u)) : reached (x >>= f) t = (f a).reached u := by
  rw [reached_bind, h]

theorem reached_bind_of_error {α : Type} {x : Exec α} {f : α → Exec Unit} {t u : Thread}
    {failure : Failure} (h : x.runFrom t = (.error failure, u)) :
    reached (x >>= f) t = .error failure := by
  rw [reached_bind, h]

theorem reached_get (f : Thread → Exec Unit) (t : Thread) :
    reached (get >>= f) t = (f t).reached t := by
  rw [reached, Stateful.runFrom_get_bind]
  rfl

/-- A sequence goes on where its first part ends. -/
theorem reached_then (x y : Exec Unit) (t : Thread) :
    reached (x >>= fun _ => y) t = x.reached t >>= y.reached := by
  rw [reached_bind]
  unfold reached
  rcases x.runFrom t with ⟨_ | _, u⟩ <;> rfl

theorem runFrom_onMain {α : Type} (x : Stateful Failure Stack α) (t : Thread) :
    (onMain x).runFrom t = ((x.runFrom t.main).1, { t with main := (x.runFrom t.main).2 }) := by
  simp only [onMain, Stateful.runFrom_bind, Stateful.runFrom_get]
  rcases x.runFrom t.main with ⟨_ | a, main⟩ <;> rfl

theorem runFrom_onAlt {α : Type} (x : Stateful Failure Stack α) (t : Thread) :
    (onAlt x).runFrom t = ((x.runFrom t.alt).1, { t with alt := (x.runFrom t.alt).2 }) := by
  simp only [onAlt, Stateful.runFrom_bind, Stateful.runFrom_get]
  rcases x.runFrom t.alt with ⟨_ | a, alt⟩ <;> rfl

/-! ## Computations that do not know the flags -/

/-- Under other flags the outcome is the same, and so is the state apart from the flags. -/
def IgnoresFlags {α : Type} (x : Exec α) : Prop :=
  ∀ (t : Thread) (around : List Bool) (executing : Bool),
    x.runFrom (t.under around executing) =
      ((x.runFrom t).1, (x.runFrom t).2.under around executing)

theorem ignoresFlags_pure {α : Type} (a : α) : IgnoresFlags (pure a) := fun _ _ _ => rfl

theorem ignoresFlags_throw {α : Type} (failure : Failure) :
    IgnoresFlags (throw failure : Exec α) := fun _ _ _ => rfl

theorem ignoresFlags_modify {f : Thread → Thread}
    (hf : ∀ t around e, f (t.under around e) = (f t).under around e) :
    IgnoresFlags (modify f) := by
  intro t around executing
  rw [Stateful.runFrom_modify, Stateful.runFrom_modify, hf]

theorem IgnoresFlags.bind {α β : Type} {x : Exec α} {f : α → Exec β} (hx : IgnoresFlags x)
    (hf : ∀ a, IgnoresFlags (f a)) : IgnoresFlags (x >>= f) := by
  intro t around executing
  rw [Stateful.runFrom_bind, Stateful.runFrom_bind, hx t]
  rcases x.runFrom t with ⟨failure | a, u⟩
  · rfl
  · exact hf a u around executing

theorem ignoresFlags_onMain {α : Type} (x : Stateful Failure Stack α) :
    IgnoresFlags (onMain x) := by
  intro t around executing
  rw [runFrom_onMain, runFrom_onMain]
  rfl

theorem ignoresFlags_onAlt {α : Type} (x : Stateful Failure Stack α) :
    IgnoresFlags (onAlt x) := by
  intro t around executing
  rw [runFrom_onAlt, runFrom_onAlt]
  rfl

theorem compositional_ignoresFlags : Compositional IgnoresFlags where
  pure := ignoresFlags_pure
  throw := ignoresFlags_throw
  bind hx hf := hx.bind hf
  push item := ignoresFlags_onMain (Stack.push item)
  pop := ignoresFlags_onMain (Stack.pop .main)
  peek := ignoresFlags_onMain (Stack.peek .main)
  popNumber := ignoresFlags_onMain (Stack.popNumber .main)
  pushAlt item := ignoresFlags_onAlt (Stack.push item)
  popAlt := ignoresFlags_onAlt (Stack.pop .alt)
  ask _ := ignoresFlags_modify fun _ _ _ => rfl

/-- Only conditionals know the flags. -/
theorem ignoresFlags_command (setting : Setting) {c : Command} (hc : c.isConditional = false) :
    IgnoresFlags (command setting c) := compositional_ignoresFlags.command hc

theorem IgnoresFlags.reached_under {x : Exec Unit} (hx : IgnoresFlags x) (t : Thread)
    (around : List Bool) (executing : Bool) :
    x.reached (t.under around executing) = (·.under around executing) <$> x.reached t := by
  unfold reached
  rw [hx t]
  rcases x.runFrom t with ⟨_ | _, u⟩ <;> rfl

/-- So the flags are still there afterwards. -/
theorem IgnoresFlags.flags {α : Type} {x : Exec α} (hx : IgnoresFlags x) (t : Thread) :
    (x.runFrom t).2.around = t.around ∧ (x.runFrom t).2.executing = t.executing := by
  have h := hx t t.around t.executing
  rw [Thread.under_self rfl rfl] at h
  rw [h]
  exact ⟨rfl, rfl⟩

theorem IgnoresFlags.flags_reached {x : Exec Unit} (hx : IgnoresFlags x) {t u : Thread}
    (h : x.reached t = .ok u) : u.around = t.around ∧ u.executing = t.executing := by
  have hflags := hx.flags t
  unfold reached at h
  rcases hrun : x.runFrom t with ⟨_ | _, v⟩
  · rw [hrun] at h
    cases h
  · rw [hrun] at h hflags
    cases h
    exact hflags

end Exec

end Utxo
