import Utxo.Proofs.Interpreter.Refinement

/-!
# What lies below

A run takes no notice of the items on its stacks below those that it takes off. The main statement
says so of whole scripts and the main stack.
-/

namespace Utxo

/-! ## Computations that do not look down -/

/-- The run did not fail for want of an item. -/
def Sufficed {α : Type} (outcome : Except Failure α) : Prop :=
  ∀ stack, outcome ≠ .error (.emptyStack stack)

/-- `lower` puts items under a stack. Unless the computation fails for want of an item without them,
it does the same with them, and they are still there afterwards. -/
def Framed {σ α : Type} (lower : σ → σ) (x : Stateful Failure σ α) : Prop :=
  ∀ s, Sufficed (x.runFrom s).1 → x.runFrom (lower s) = ((x.runFrom s).1, lower (x.runFrom s).2)

theorem sufficed_ok {α : Type} (a : α) : Sufficed (.ok a) := nofun

/-- Whether a failed run had items enough can be read off the kind of failure. -/
theorem sufficed_error {α : Type} {failure : Failure} :
    Sufficed (.error failure : Except Failure α) ↔ failure.code ≠ .stackUnderflow := by
  cases failure <;> simp [Sufficed, Failure.code]

section Building

variable {σ α β : Type} {lower : σ → σ}

theorem framed_pure (a : α) : Framed lower (pure a) := fun _ _ => rfl

theorem framed_throw (failure : Failure) : Framed lower (throw failure : Stateful Failure σ α) :=
  fun _ _ => rfl

theorem framed_modify {f : σ → σ} (hf : ∀ s, f (lower s) = lower (f s)) :
    Framed lower (modify f) := by
  intro s _
  rw [Stateful.runFrom_modify, Stateful.runFrom_modify, hf]

theorem Framed.bind {x : Stateful Failure σ α} {f : α → Stateful Failure σ β}
    (hx : Framed lower x) (hf : ∀ a, Framed lower (f a)) : Framed lower (x >>= f) := by
  intro s h
  rcases hrun : x.runFrom s with ⟨failure | a, u⟩
  · have hbind : (x >>= f).runFrom s = (.error failure, u) := Stateful.runFrom_bind_of_error hrun
    rw [hbind] at h ⊢
    have hlower := hx s (by rw [hrun]; exact sufficed_error.mpr (sufficed_error.mp h))
    rw [hrun] at hlower
    exact Stateful.runFrom_bind_of_error hlower
  · have hlower := hx s (by rw [hrun]; exact sufficed_ok a)
    rw [hrun] at hlower
    rw [Stateful.runFrom_bind_of_ok hrun] at h ⊢
    rw [Stateful.runFrom_bind_of_ok hlower, hf a u h]

/-- What is asked of a state before anything else has to be the same below. -/
theorem framed_get {f : σ → Stateful Failure σ α} (hsame : ∀ s, f (lower s) = f s)
    (hf : ∀ s, Framed lower (f s)) : Framed lower (get >>= f) := by
  intro s h
  rw [Stateful.runFrom_get_bind] at h ⊢
  rw [Stateful.runFrom_get_bind, hsame, hf s s h]

end Building

namespace Stack

variable {base : Stack}

theorem framed_push (item : Bytes) : Framed (· ++ base) (push item) :=
  framed_modify fun _ => rfl

theorem framed_pop (name : StackName) : Framed (· ++ base) (pop name) := by
  intro s h
  cases s with
  | nil => exact absurd rfl (h name)
  | cons top rest => rfl

theorem framed_peek (name : StackName) : Framed (· ++ base) (peek name) := by
  intro s h
  cases s with
  | nil => exact absurd rfl (h name)
  | cons top rest => rfl

theorem framed_popNumber (name : StackName) : Framed (· ++ base) (popNumber name) := by
  refine (framed_pop name).bind fun item => ?_
  split
  · exact framed_pure _
  · exact framed_throw _

theorem framed_popBool (name : StackName) : Framed (· ++ base) (popBool name) :=
  (framed_pop name).bind fun _ => framed_pure _

end Stack

/-! ## Threads -/

/-- The same thread, with `main` and `alt` at the bottom of its stacks. -/
def Thread.above (t : Thread) (main alt : Stack) : Thread :=
  { t with main := t.main ++ main, alt := t.alt ++ alt }

namespace Exec

variable {setting : Setting} {main alt : Stack}

theorem framed_onMain {α : Type} {x : Stateful Failure Stack α} (hx : Framed (· ++ main) x) :
    Framed (·.above main alt) (onMain x) := by
  intro t h
  rw [runFrom_onMain] at h ⊢
  have hlower : x.runFrom (t.above main alt).main = _ := hx t.main h
  rw [runFrom_onMain, hlower]
  rfl

theorem framed_onAlt {α : Type} {x : Stateful Failure Stack α} (hx : Framed (· ++ alt) x) :
    Framed (·.above main alt) (onAlt x) := by
  intro t h
  rw [runFrom_onAlt] at h ⊢
  have hlower : x.runFrom (t.above main alt).alt = _ := hx t.alt h
  rw [runFrom_onAlt, hlower]
  rfl

theorem framed_openBranch (wanted : Bool) :
    Framed (·.above main alt) (openBranch setting wanted) := by
  refine framed_get (fun _ => rfl) fun t => ?_
  have hopen : ∀ runs, Framed (·.above main alt) (modify fun s : Thread =>
      { s with around := t.executing :: s.around, executing := runs } : Exec Unit) :=
    fun runs => framed_modify fun _ => rfl
  have hcondition : Framed (·.above main alt) ((· == wanted) <$> onMain (Stack.popBool .main)) :=
    (framed_onMain (Stack.framed_popBool .main)).bind fun _ => framed_pure _
  dsimp only
  split
  · exact fun _ _ => rfl
  split
  · exact hcondition.bind hopen
  · exact (framed_pure false).bind hopen

theorem framed_flipBranch : Framed (·.above main alt) flipBranch := by
  intro t _
  rcases t with ⟨_, _, _ | ⟨outer, around⟩, _, _⟩ <;> rfl

theorem framed_closeBranch : Framed (·.above main alt) closeBranch := by
  intro t _
  rcases t with ⟨_, _, _ | ⟨outer, around⟩, _, _⟩ <;> rfl

theorem compositional_framed : Compositional (Framed (·.above main alt)) where
  pure := framed_pure
  throw := framed_throw
  bind hx hf := hx.bind hf
  push item := framed_onMain (Stack.framed_push item)
  pop := framed_onMain (Stack.framed_pop .main)
  peek := framed_onMain (Stack.framed_peek .main)
  popNumber := framed_onMain (Stack.framed_popNumber .main)
  pushAlt item := framed_onAlt (Stack.framed_push item)
  popAlt := framed_onAlt (Stack.framed_pop .alt)
  ask _ := framed_modify fun _ => rfl

theorem framed_command (c : Command) : Framed (·.above main alt) (command setting c) := by
  cases c with
  | openBranch wanted => exact framed_openBranch wanted
  | flipBranch => exact framed_flipBranch
  | closeBranch => exact framed_closeBranch
  | _ => exact compositional_framed.command rfl

theorem framed_operation (op : Operation) : Framed (·.above main alt) (operation setting op) := by
  refine framed_get (fun _ => rfl) fun t => ?_
  dsimp only
  split
  · exact framed_command _
  · exact framed_pure _

/-- No operation looks down, so no run of them does. -/
theorem framed_operations (ops : List Operation) :
    Framed (·.above main alt) (operations setting ops) := by
  induction ops with
  | nil => exact framed_pure _
  | cons op rest ih => exact (framed_operation op).bind fun _ => ih

/-- The second stack ends with the script, and with it what was below. -/
theorem framed_script (s : Script) : Framed (·.above main []) (script setting s) := by
  refine (framed_operations s.operations).bind fun _ => ?_
  split
  · exact framed_throw _
  · intro t _
    rcases t with ⟨_, _, _ | ⟨outer, around⟩, _, _⟩ <;> rfl

end Exec

/-! ## Whole scripts -/

section Scripts

open Exec

variable {lower : Thread → Thread} {x : Exec Unit} {t u : Thread}

theorem Framed.reached_ok (hx : Framed lower x) (h : x.reached t = .ok u) :
    x.reached (lower t) = .ok (lower u) := by
  have hrun := runFrom_of_reached h
  have hlower := hx t (by rw [hrun]; exact sufficed_ok ())
  rw [hrun] at hlower
  exact reached_of_runFrom hlower

theorem Framed.reached_error (hx : Framed lower x) {failure : Failure}
    (h : x.reached t = .error failure) (hcode : failure.code ≠ .stackUnderflow) :
    x.reached (lower t) = .error failure := by
  obtain ⟨u, hrun⟩ := exists_runFrom_of_reached h
  have hlower := hx t (by rw [hrun]; exact sufficed_error.mpr hcode)
  rw [hrun] at hlower
  exact reached_of_runFrom hlower

end Scripts

theorem Thread.above_nil (t : Thread) (base : Stack) :
    t.above base [] = { t with main := t.main ++ base } := by
  rw [above, List.append_nil]

/-- With more items at the bottom of the main stack, a script that succeeds does the same and leaves
them there, and one that fails for another reason than an empty stack fails for that reason. -/
theorem reached_script_above (setting : Setting) (s : Script) (t : Thread) (base : Stack) :
    (∀ u, (Exec.script setting s).reached t = .ok u →
      (Exec.script setting s).reached { t with main := t.main ++ base } =
        .ok { u with main := u.main ++ base }) ∧
    ∀ failure, (Exec.script setting s).reached t = .error failure →
      failure.code ≠ .stackUnderflow →
      (Exec.script setting s).reached { t with main := t.main ++ base } = .error failure := by
  have hframed : Framed (·.above base []) (Exec.script setting s) := Exec.framed_script s
  simp only [← Thread.above_nil]
  exact ⟨fun u => hframed.reached_ok, fun failure => hframed.reached_error⟩

/-- `1ADD 3 EQUALVERIFY` -/
theorem reached_script_above_equal :
    let s : Script := .ofOperations [.code Opcode.add1, .code 0x53, .code Opcode.equalVerify]
    let base : Stack := [[7], [8]]
    (Exec.script {} s).reached { main := [[2]] } = .ok {} ∧
      (Exec.script {} s).reached { main := [2] :: base } = .ok { main := base } ∧
      (Exec.script {} s).reached { main := [[4]] } = .error (.notEqual [5] [3]) ∧
      (Exec.script {} s).reached { main := [4] :: base } = .error (.notEqual [5] [3]) := by
  intro s base
  have hok : (Exec.script {} s).reached { main := [[2]] } = .ok {} := by rfl
  have herror : (Exec.script {} s).reached { main := [[4]] } = .error (.notEqual [5] [3]) := by rfl
  exact ⟨hok, (reached_script_above {} s { main := [[2]] } base).1 _ hok, herror,
    (reached_script_above {} s { main := [[4]] } base).2 _ herror (by decide)⟩

/-- An empty stack is what items below can make good. -/
example :
    (Exec.script {} (.ofOperations [.code Opcode.dup])).reached {} = .error (.emptyStack .main) ∧
      (Exec.script {} (.ofOperations [.code Opcode.dup])).reached { main := [[7]] } =
        .ok { main := [[7], [7]] } := ⟨rfl, rfl⟩

end Utxo
