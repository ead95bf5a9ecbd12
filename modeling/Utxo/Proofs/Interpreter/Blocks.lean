import Utxo.Proofs.Interpreter.Flags

/-!
# Scripts as blocks

A script whose conditionals are closed is a block: a sequence of operations and of conditionals,
whose branches are blocks again. A block is run by recursion, without flags.
-/

namespace Utxo

mutual

/-- A sequence of operations that are no conditionals, and of whole conditionals. -/
inductive Block where
  | done
  | plain (op : Operation) (isPlain : (Command.ofOperation op).isConditional = false)
      (rest : Block)
  | conditional (wanted : Bool) (branches : Branches) (rest : Block)

/-- What stands between an `IF` and its `ENDIF`: one block more than there are `ELSE`s. -/
inductive Branches where
  | last (body : Block)
  | orElse (body : Block) (rest : Branches)

end

/-- `IF` if the first branch runs on true, `NOTIF` if it runs on false. -/
def Operation.opener (wanted : Bool) : Operation :=
  .code (if wanted then Opcode.opIf else Opcode.opNotIf)

/-! ## The operations of a block -/

mutual

def Block.operations : Block → List Operation
  | .done => []
  | .plain op _ rest => op :: rest.operations
  | .conditional wanted branches rest =>
    .opener wanted :: (branches.operations ++ .code Opcode.opEndIf :: rest.operations)

def Branches.operations : Branches → List Operation
  | .last body => body.operations
  | .orElse body rest => body.operations ++ .code Opcode.opElse :: rest.operations

end

/-! ## How deep conditionals stand in conditionals -/

mutual

def Block.depth : Block → Nat
  | .done => 0
  | .plain _ _ rest => rest.depth
  | .conditional _ branches rest => max (branches.depth + 1) rest.depth

def Branches.depth : Branches → Nat
  | .last body => body.depth
  | .orElse body rest => max body.depth rest.depth

end

/-! ## Running a block -/

mutual

/-- A conditional takes one item off the stack, and that alone says which of its branches run. -/
def Block.run (setting : Setting) : Block → Exec Unit
  | .done => return ()
  | .plain op _ rest => do
    Exec.command setting (.ofOperation op)
    rest.run setting
  | .conditional wanted branches rest => do
    let condition ← Exec.onMain (Stack.popBool .main)
    branches.run setting (condition == wanted)
    rest.run setting

/-- Every other branch, from the first one on if `first`, else from the second one on. -/
def Branches.run (setting : Setting) : Branches → (first : Bool) → Exec Unit
  | .last body, first => if first then body.run setting else return ()
  | .orElse body rest, first => do
    if first then body.run setting
    rest.run setting (!first)

end

/-- Runs a block as a whole script, with which the second stack ends. -/
def Block.evaluation (setting : Setting) (block : Block) : Exec Unit := do
  block.run setting
  modify fun t => { t with alt := [] }

open Exec in
mutual

theorem Block.ignoresFlags_run (setting : Setting) (block : Block) :
    IgnoresFlags (block.run setting) := by
  cases block with
  | done =>
    rw [Block.run]
    exact ignoresFlags_pure ()
  | plain op isPlain rest =>
    rw [Block.run]
    exact (ignoresFlags_command setting isPlain).bind fun _ => rest.ignoresFlags_run setting
  | conditional wanted branches rest =>
    rw [Block.run]
    exact (ignoresFlags_onMain _).bind fun _ => (branches.ignoresFlags_run setting _).bind
      fun _ => rest.ignoresFlags_run setting

theorem Branches.ignoresFlags_run (setting : Setting) (branches : Branches) (first : Bool) :
    IgnoresFlags (branches.run setting first) := by
  cases branches with
  | last body =>
    rw [Branches.run]
    split
    · exact body.ignoresFlags_run setting
    · exact ignoresFlags_pure ()
  | orElse body rest =>
    rw [Branches.run]
    split
    · exact (body.ignoresFlags_run setting).bind fun _ => rest.ignoresFlags_run setting _
    · exact (ignoresFlags_pure ()).bind fun _ => rest.ignoresFlags_run setting _

end

end Utxo
