import Mathlib.Data.Bool.Basic
import Mathlib.Data.List.Chain
import Utxo.Proofs.Interpreter.Conditionals

/-!
# The flags of a thread

The flag of a branch and those that are kept for the code around it tell of one nesting: a branch
runs only if the code around it does. Every operation keeps that, also where it fails, and so it
holds of every thread that can be reached.
-/

namespace Utxo

namespace Thread

variable {setting : Setting} {t u : Thread}

/-! ## Nestings -/

/-- Whether the present branch runs, and then the same of the code around it, up to the
outermost. -/
def flags (t : Thread) : List Bool := t.executing :: t.around

/-- The outermost code runs, and any other code only if the code around it does. -/
structure Nested (setting : Setting) (t : Thread) : Prop where
  room : t.around.length ≤ setting.maxDepth
  inner_le_outer : t.flags.IsChain (· ≤ ·)
  outermost : t.flags.getLast? = some true

theorem nested_new : Nested setting {} := ⟨Nat.zero_le _, List.isChain_singleton true, rfl⟩

/-- Nothing but the flags counts. -/
theorem Nested.of_flags (h : t.Nested setting) (haround : u.around = t.around)
    (hexecuting : u.executing = t.executing) : u.Nested setting := by
  have hflags : u.flags = t.flags := by rw [flags, flags, haround, hexecuting]
  refine ⟨?_, ?_, ?_⟩
  · rw [haround]
    exact h.room
  · rw [hflags]
    exact h.inner_le_outer
  · rw [hflags]
    exact h.outermost

theorem Nested.opened (h : t.Nested setting) (hroom : t.around.length < setting.maxDepth)
    {runs : Bool} (hruns : runs ≤ t.executing) :
    (t.under (t.executing :: t.around) runs).Nested setting := by
  refine ⟨hroom, List.isChain_cons_cons.mpr ⟨hruns, h.inner_le_outer⟩, ?_⟩
  exact List.getLast?_cons_cons.trans h.outermost

theorem Nested.flipped (h : t.Nested setting) {outer runs : Bool} {around : List Bool}
    (haround : t.around = outer :: around) (hruns : runs ≤ outer) :
    (t.under t.around runs).Nested setting := by
  obtain ⟨hroom, hinner, houtermost⟩ := h
  unfold flags at hinner houtermost
  rw [haround] at hinner houtermost
  refine ⟨hroom, ?_, ?_⟩
  · rw [flags, around_under, haround]
    exact List.isChain_cons_cons.mpr ⟨hruns, (List.isChain_cons_cons.mp hinner).2⟩
  · rw [flags, around_under, haround, List.getLast?_cons_cons, ← houtermost,
      List.getLast?_cons_cons]

theorem Nested.closed (h : t.Nested setting) {outer : Bool} {around : List Bool}
    (haround : t.around = outer :: around) : (t.under around outer).Nested setting := by
  obtain ⟨hroom, hinner, houtermost⟩ := h
  unfold flags at hinner houtermost
  rw [haround] at hroom hinner houtermost
  exact ⟨Nat.le_of_succ_le hroom, (List.isChain_cons_cons.mp hinner).2,
    List.getLast?_cons_cons.symm.trans houtermost⟩

theorem Nested.flags_pairwise (h : t.Nested setting) : t.flags.Pairwise (· ≤ ·) :=
  List.isChain_iff_pairwise.mp h.inner_le_outer

end Thread

/-! ## What keeps a nesting -/

namespace Exec

variable {setting : Setting} {α β : Type}

/-- Also where the computation fails, it ends in a nesting. -/
def KeepsNesting (setting : Setting) (x : Exec α) : Prop :=
  ∀ t : Thread, t.Nested setting → (x.runFrom t).2.Nested setting

theorem IgnoresFlags.keepsNesting {x : Exec α} (hx : IgnoresFlags x) : KeepsNesting setting x := by
  intro t h
  obtain ⟨haround, hexecuting⟩ := hx.flags t
  exact h.of_flags haround hexecuting

theorem KeepsNesting.bind {x : Exec α} {f : α → Exec β} (hx : KeepsNesting setting x)
    (hf : ∀ a, KeepsNesting setting (f a)) : KeepsNesting setting (x >>= f) := by
  intro t h
  have hu := hx t h
  rw [Stateful.runFrom_bind]
  rcases hrun : x.runFrom t with ⟨failure | a, u⟩
  · rw [hrun] at hu
    exact hu
  · rw [hrun] at hu
    exact hf a u hu

theorem keepsNesting_openBranch (wanted : Bool) :
    KeepsNesting setting (openBranch setting wanted) := by
  intro t h
  rw [openBranch, Stateful.runFrom_get_bind]
  dsimp only
  split
  · exact h
  rename_i hroom
  split
  · rename_i hon
    rw [Stateful.runFrom_bind, Stateful.runFrom_map, runFrom_onMain]
    rcases (Stack.popBool .main).runFrom t.main with ⟨failure | condition, main⟩
    · exact h.of_flags rfl rfl
    · have hle : (condition == wanted) ≤ t.executing := by
        rw [hon]
        exact Bool.le_true _
      exact (h.opened (Nat.lt_of_not_le hroom) hle).of_flags rfl rfl
  · exact h.opened (Nat.lt_of_not_le hroom) (Bool.false_le _)

theorem keepsNesting_flipBranch : KeepsNesting setting flipBranch := by
  intro t h
  rw [flipBranch, Stateful.runFrom_get_bind]
  split
  · exact h
  · rename_i outer around haround
    exact h.flipped haround (Bool.and_le_left outer (!t.executing))

theorem keepsNesting_closeBranch : KeepsNesting setting closeBranch := by
  intro t h
  rw [closeBranch, Stateful.runFrom_get_bind]
  split
  · exact h
  · rename_i outer around haround
    exact h.closed haround

theorem keepsNesting_operation (op : Operation) : KeepsNesting setting (operation setting op) := by
  intro t h
  rw [operation, Stateful.runFrom_get_bind]
  dsimp only
  split
  · cases hc : Command.ofOperation op with
    | openBranch wanted => exact keepsNesting_openBranch wanted t h
    | flipBranch => exact keepsNesting_flipBranch t h
    | closeBranch => exact keepsNesting_closeBranch t h
    | _ => exact (ignoresFlags_command setting rfl).keepsNesting t h
  · exact h

theorem keepsNesting_operations (ops : List Operation) :
    KeepsNesting setting (operations setting ops) := by
  induction ops with
  | nil => exact (ignoresFlags_pure ()).keepsNesting
  | cons op rest ih => exact (keepsNesting_operation op).bind fun _ => ih

theorem keepsNesting_script (s : Script) : KeepsNesting setting (script setting s) := by
  refine (keepsNesting_operations s.operations).bind fun _ => ?_
  split
  · exact (ignoresFlags_throw _).keepsNesting
  · intro t h
    rw [Stateful.runFrom_get_bind]
    split
    · exact h.of_flags rfl rfl
    · exact h

/-! ## Where nothing runs -/

/-- The computation leaves both stacks alone, and only conditionals can be wrong in it. -/
structure LeavesStacks (x : Exec α) (t : Thread) : Prop where
  main : (x.runFrom t).2.main = t.main
  alt : (x.runFrom t).2.alt = t.alt
  failure : ∀ failure, (x.runFrom t).1 = .error failure →
    failure.code = .unbalancedConditional ∨ failure.code = .conditionalTooDeep

theorem leavesStacks_of_ok {x : Exec α} {t u : Thread} {a : α} (hrun : x.runFrom t = (.ok a, u))
    (hmain : u.main = t.main) (halt : u.alt = t.alt) : LeavesStacks x t := by
  refine ⟨?_, ?_, ?_⟩
  · rw [hrun, hmain]
  · rw [hrun, halt]
  · rw [hrun]
    nofun

theorem leavesStacks_of_error {x : Exec α} {t : Thread} {failure : Failure}
    (hrun : x.runFrom t = (.error failure, t))
    (hcode : failure.code = .unbalancedConditional ∨ failure.code = .conditionalTooDeep) :
    LeavesStacks x t := by
  refine ⟨?_, ?_, ?_⟩
  · rw [hrun]
  · rw [hrun]
  · rw [hrun]
    intro failure' h
    cases h
    exact hcode

theorem leavesStacks_openBranch {t : Thread} (hoff : t.executing = false) (wanted : Bool) :
    LeavesStacks (openBranch setting wanted) t := by
  by_cases hroom : t.around.length < setting.maxDepth
  · have hrun := runFrom_of_reached (reached_openBranch_off wanted hoff hroom)
    exact leavesStacks_of_ok hrun rfl rfl
  · exact leavesStacks_of_error (runFrom_openBranch_full wanted (Nat.le_of_not_lt hroom)) (.inr rfl)

theorem leavesStacks_flipBranch (t : Thread) : LeavesStacks flipBranch t := by
  cases haround : t.around with
  | nil => exact leavesStacks_of_error (runFrom_flipBranch_outside haround) (.inl rfl)
  | cons outer around =>
    exact leavesStacks_of_ok (runFrom_of_reached (reached_flipBranch haround)) rfl rfl

theorem leavesStacks_closeBranch (t : Thread) : LeavesStacks closeBranch t := by
  cases haround : t.around with
  | nil => exact leavesStacks_of_error (runFrom_closeBranch_outside haround) (.inl rfl)
  | cons outer around =>
    exact leavesStacks_of_ok (runFrom_of_reached (reached_closeBranch haround)) rfl rfl

/-- Where nothing runs, an operation does nothing, or it is a conditional. -/
theorem leavesStacks_operation {t : Thread} (hoff : t.executing = false) (op : Operation) :
    LeavesStacks (operation setting op) t := by
  by_cases hc : (Command.ofOperation op).isConditional = true
  · have hrun : (operation setting op).runFrom t =
        (command setting (.ofOperation op)).runFrom t := by
      rw [operation, Stateful.runFrom_get_bind]
      dsimp only
      rw [if_pos (by rw [hc, Bool.or_true])]
    have hcommand : LeavesStacks (command setting (.ofOperation op)) t := by
      cases h : Command.ofOperation op with
      | openBranch wanted => exact leavesStacks_openBranch hoff wanted
      | flipBranch => exact leavesStacks_flipBranch t
      | closeBranch => exact leavesStacks_closeBranch t
      | _ =>
        rw [h] at hc
        cases hc
    obtain ⟨hmain, halt, hfailure⟩ := hcommand
    rw [← hrun] at hmain halt hfailure
    exact ⟨hmain, halt, hfailure⟩
  · have hplain := (Bool.not_eq_true _).mp hc
    exact leavesStacks_of_ok (runFrom_of_reached (reached_operation_off hplain hoff)) rfl rfl

end Exec

/-! ## Threads that can be reached -/

/-- What a new thread comes to by running operations and whole scripts in any order. It is run on
from also where one of them has failed. -/
inductive Thread.Reachable (setting : Setting) : Thread → Prop
  | new : Reachable setting {}
  | operation {t : Thread} (op : Operation) :
      Reachable setting t → Reachable setting ((Exec.operation setting op).runFrom t).2
  | script {t : Thread} (s : Script) :
      Reachable setting t → Reachable setting ((Exec.script setting s).runFrom t).2

theorem Thread.Reachable.nested {setting : Setting} {t : Thread} (h : t.Reachable setting) :
    t.Nested setting := by
  induction h with
  | new => exact nested_new
  | operation op _ ih => exact Exec.keepsNesting_operation op _ ih
  | script s _ ih => exact Exec.keepsNesting_script s _ ih

/-- In every thread that can be reached, no more branches are open than may be, and among the flags
that are kept for them none is on inside of one that is off. Outside of all branches everything
runs; and where something runs, all the code around it does. Where nothing runs, an operation
leaves both stacks alone, and only a conditional can fail there. -/
theorem reachable_nested (setting : Setting) (t : Thread) (h : t.Reachable setting) :
    t.around.length ≤ setting.maxDepth ∧
    t.around.Pairwise (fun inner outer => inner = true → outer = true) ∧
    (t.around = [] → t.executing = true) ∧
    (t.executing = true → ∀ flag ∈ t.around, flag = true) ∧
    (t.executing = false → ∀ op,
      ((Exec.operation setting op).runFrom t).2.main = t.main ∧
      ((Exec.operation setting op).runFrom t).2.alt = t.alt ∧
      ∀ failure, ((Exec.operation setting op).runFrom t).1 = .error failure →
        failure.code = .unbalancedConditional ∨ failure.code = .conditionalTooDeep) := by
  have hnested := h.nested
  obtain ⟨hexecuting, haround⟩ := List.pairwise_cons.mp hnested.flags_pairwise
  refine ⟨hnested.room, haround, fun hnil => ?_, fun hon flag hflag => ?_, fun hoff op => ?_⟩
  · have houtermost := hnested.outermost
    rw [Thread.flags, hnil] at houtermost
    exact Option.some.inj houtermost
  · exact hexecuting flag hflag hon
  · have hleaves : Exec.LeavesStacks (Exec.operation setting op) t :=
      Exec.leavesStacks_operation hoff op
    exact ⟨hleaves.main, hleaves.alt, hleaves.failure⟩

/-- `0 IF IF` with room for one branch: the second `IF` fails, and the branch stays as it was. -/
theorem reachable_nested_too_deep :
    let setting : Setting := { maxDepth := 1 }
    let t : Thread := { around := [true], executing := false }
    t.Reachable setting ∧ t.around.Pairwise (fun inner outer => inner = true → outer = true) ∧
      ∀ op, ((Exec.operation setting op).runFrom t).2.main = t.main := by
  intro setting t
  have hzero : Thread.Reachable setting { main := [[]] } := .operation (.code Opcode.push0) .new
  have hopened : t.Reachable setting := .operation (.opener true) hzero
  have hfailed : t.Reachable setting := .operation (.opener true) hopened
  obtain ⟨-, haround, -, -, hoff⟩ := reachable_nested setting t hfailed
  exact ⟨hfailed, haround, fun op => (hoff rfl op).1⟩

end Utxo
