/-!
# Computations that keep their state when they fail

A failed computation has no value, but the state it reached is still there, and work can go on from
it. The lemmas say where each way of building a computation gets to.
-/

namespace Utxo

/-- A computation on a state `σ` that may fail with `ε`. -/
abbrev Stateful (ε σ : Type) := ExceptT ε (StateM σ)

namespace Stateful

variable {ε ε' σ α β : Type}

/-- The outcome of a computation and the state it reaches. -/
def runFrom (x : Stateful ε σ α) (s : σ) : Except ε α × σ := x s

/-- The same computation, with another word for its failures. -/
def blame (word : ε → ε') (x : Stateful ε σ α) : Stateful ε' σ α := ExceptT.adapt word x

/-- An outcome that is there already. -/
def done (outcome : Except ε α) : Stateful ε σ α := ExceptT.mk (pure outcome)

@[simp] theorem runFrom_pure (a : α) (s : σ) :
    (pure a : Stateful ε σ α).runFrom s = (.ok a, s) := rfl

@[simp] theorem runFrom_throw (e : ε) (s : σ) :
    (throw e : Stateful ε σ α).runFrom s = (.error e, s) := rfl

@[simp] theorem runFrom_done (outcome : Except ε α) (s : σ) :
    (done outcome : Stateful ε σ α).runFrom s = (outcome, s) := rfl

@[simp] theorem runFrom_get (s : σ) : (get : Stateful ε σ σ).runFrom s = (.ok s, s) := rfl

@[simp] theorem runFrom_set (t s : σ) :
    (set t : Stateful ε σ PUnit).runFrom s = (.ok ⟨⟩, t) := rfl

@[simp] theorem runFrom_modify (f : σ → σ) (s : σ) :
    (modify f : Stateful ε σ PUnit).runFrom s = (.ok ⟨⟩, f s) := rfl

theorem runFrom_bind (x : Stateful ε σ α) (f : α → Stateful ε σ β) (s : σ) :
    (x >>= f).runFrom s = match x.runFrom s with
      | (.ok a, t) => (f a).runFrom t
      | (.error e, t) => (.error e, t) := by
  show (ExceptT.bindCont f (x s).1) (x s).2 = _
  unfold runFrom
  rcases x s with ⟨_ | _, _⟩ <;> rfl

theorem runFrom_bind_of_ok {x : Stateful ε σ α} {f : α → Stateful ε σ β} {s t : σ} {a : α}
    (h : x.runFrom s = (.ok a, t)) : (x >>= f).runFrom s = (f a).runFrom t := by
  rw [runFrom_bind, h]

theorem runFrom_bind_of_error {x : Stateful ε σ α} {f : α → Stateful ε σ β} {s t : σ} {e : ε}
    (h : x.runFrom s = (.error e, t)) : (x >>= f).runFrom s = (.error e, t) := by
  rw [runFrom_bind, h]

theorem runFrom_get_bind (f : σ → Stateful ε σ α) (s : σ) :
    (get >>= f).runFrom s = (f s).runFrom s :=
  runFrom_bind_of_ok (runFrom_get s)

theorem runFrom_map (f : α → β) (x : Stateful ε σ α) (s : σ) :
    (f <$> x).runFrom s = match x.runFrom s with
      | (.ok a, t) => (.ok (f a), t)
      | (.error e, t) => (.error e, t) := by
  rw [map_eq_pure_bind, runFrom_bind]
  rcases x.runFrom s with ⟨_ | _, _⟩ <;> rfl

theorem runFrom_blame (word : ε → ε') (x : Stateful ε σ α) (s : σ) :
    (x.blame word).runFrom s = match x.runFrom s with
      | (.ok a, t) => (.ok a, t)
      | (.error e, t) => (.error (word e), t) := by
  unfold runFrom
  show (Except.mapError word (x s).1, (x s).2) = _
  rcases x s with ⟨_ | _, _⟩ <;> rfl

/-- Another word for the failures leaves the successes. -/
theorem runFrom_blame_ok {word : ε → ε'} {x : Stateful ε σ α} {s t : σ} {a : α} :
    (x.blame word).runFrom s = (.ok a, t) ↔ x.runFrom s = (.ok a, t) := by
  rw [runFrom_blame]
  rcases x.runFrom s with ⟨_ | _, _⟩ <;> simp

/-- A sequence succeeds only if both parts do. -/
theorem runFrom_bind_ok {x : Stateful ε σ α} {f : α → Stateful ε σ β} {s t : σ} {b : β} :
    (x >>= f).runFrom s = (.ok b, t) ↔
      ∃ a u, x.runFrom s = (.ok a, u) ∧ (f a).runFrom u = (.ok b, t) := by
  rw [runFrom_bind]
  rcases x.runFrom s with ⟨_ | a, u⟩
  · simp
  · exact ⟨fun h => ⟨a, u, rfl, h⟩, by rintro ⟨_, _, h, h'⟩; cases h; exact h'⟩

theorem runFrom_map_ok {f : α → β} {x : Stateful ε σ α} {s t : σ} {b : β} :
    (f <$> x).runFrom s = (.ok b, t) ↔ ∃ a, f a = b ∧ x.runFrom s = (.ok a, t) := by
  rw [runFrom_map]
  rcases x.runFrom s with ⟨_ | a, u⟩
  · simp
  · exact ⟨fun h => by cases h; exact ⟨a, rfl, rfl⟩, by rintro ⟨_, rfl, h⟩; cases h; rfl⟩

end Stateful

/-- A sequence of outcomes is a success only if both parts are. -/
theorem bind_ok {ε α β : Type} {x : Except ε α} {f : α → Except ε β} {b : β} :
    (x >>= f) = .ok b ↔ ∃ a, x = .ok a ∧ f a = .ok b := by
  cases x with
  | error e => exact ⟨nofun, nofun⟩
  | ok a => exact ⟨fun h => ⟨a, rfl, h⟩, by rintro ⟨_, ⟨⟩, h⟩; exact h⟩

end Utxo
