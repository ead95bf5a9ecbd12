import Utxo.Bytes.Cursor

/-!
# Reading messages

A message is read from its front, and all there is to know is what follows. Readers that take at
least one byte can be repeated up to the end of a message.
-/

namespace Utxo

/-- A computation that takes bytes off the front of a message. -/
abbrev WireReader (ε : Type) := Stateful ε Bytes

namespace WireReader

variable {ε ε' α β σ : Type}

def take (n : Nat) : WireReader Truncated Bytes := do
  let b ← get
  let piece := b.take n
  if piece.length = n then
    set (b.drop n)
    return piece
  else throw ⟨n, b.length⟩

/-! ## How much a reader takes -/

def TakesAtLeast (k : Nat) (reader : WireReader ε α) : Prop :=
  ∀ ⦃b a rest⦄, reader.runFrom b = (.ok a, rest) → rest.length + k ≤ b.length

theorem TakesAtLeast.mono {j k : Nat} {x : WireReader ε α} (h : TakesAtLeast k x) (le : j ≤ k) :
    TakesAtLeast j x := fun b a rest run => by have := h run; omega

theorem takesAtLeast_pure (a : α) : TakesAtLeast 0 (pure a : WireReader ε α) := by
  intro b a' rest h
  cases h
  exact Nat.le_refl _

theorem takesAtLeast_throw (k : Nat) (e : ε) : TakesAtLeast k (throw e : WireReader ε α) := by
  intro b a rest h
  cases h

theorem takesAtLeast_done (outcome : Except ε α) :
    TakesAtLeast 0 (Stateful.done outcome : WireReader ε α) := by
  intro b a rest h
  cases h
  exact Nat.le_refl _

theorem TakesAtLeast.bind {j k : Nat} {x : WireReader ε α} {f : α → WireReader ε β}
    (hx : TakesAtLeast j x) (hf : ∀ a, TakesAtLeast k (f a)) : TakesAtLeast (j + k) (x >>= f) := by
  intro b c rest h
  obtain ⟨a, u, hxa, hfa⟩ := Stateful.runFrom_bind_ok.mp h
  have := hx hxa
  have := hf a hfa
  omega

theorem TakesAtLeast.then {k : Nat} {x : WireReader ε α} {f : α → WireReader ε β}
    (hx : TakesAtLeast k x) (hf : ∀ a, TakesAtLeast 0 (f a)) : TakesAtLeast k (x >>= f) :=
  hx.bind hf

theorem TakesAtLeast.blame {k : Nat} {x : WireReader ε α} (h : TakesAtLeast k x)
    (word : ε → ε') : TakesAtLeast k (Stateful.blame word x) := by
  intro b a rest run
  rw [Stateful.runFrom_blame] at run
  split at run <;> cases run
  exact h ‹_›

theorem takesAtLeast_take (n : Nat) : TakesAtLeast n (take n) := by
  intro b a rest h
  unfold take at h
  simp only [Stateful.runFrom_bind, Stateful.runFrom_get] at h
  split at h
  · rename_i hlen
    simp only [Stateful.runFrom_bind, Stateful.runFrom_set, Stateful.runFrom_pure, Prod.mk.injEq,
      Except.ok.injEq] at h
    rw [List.length_take] at hlen
    rw [← h.2, List.length_drop]
    omega
  · simp at h

/-! ## Up to the end -/

/-- Repeats a step from `s` on until no byte is left. -/
def foldToEnd (step : σ → WireReader ε σ) (takes : ∀ s, TakesAtLeast 1 (step s)) (s : σ)
    (b : Bytes) : Except ε σ :=
  if b.isEmpty then .ok s
  else
    match _h : (step s).runFrom b with
    | (.ok s', rest) => foldToEnd step takes s' rest
    | (.error e, _) => .error e
termination_by b.length
decreasing_by exact takes s _h

end WireReader

end Utxo
