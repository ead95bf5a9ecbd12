import Utxo.Digest
import Utxo.Interpreter.Command
import Utxo.Interpreter.Stack
import Utxo.Script.Basic
import Utxo.SigHash

/-!
# Running scripts

A thread runs one script after another on the same state. Conditionals are flat: the thread knows
whether the present branch runs, and for each open branch whether the code around it did.
-/

namespace Utxo

/-- Says whether a signature, without its last byte, is good for a key and an input. It may refuse
to answer, but not because signature or key are malformed. -/
abbrev SignatureCheck :=
  (signature : Bytes) → (flags : SigHashFlags) → (key : Bytes) → (input : Nat) → Except Failure Bool

/-- What a thread is told and does not change. -/
structure Setting where
  /-- How many branches may be open at once. -/
  maxDepth : Nat := 100
  check? : Option SignatureCheck := none
  input : Nat := 0

/-- A question put to the signature check. -/
structure CheckedSignature where
  signature : Bytes
  flags : SigHashFlags
  key : Bytes
  input : Nat
  deriving DecidableEq, Repr

structure Thread where
  main : Stack := []
  alt : Stack := []
  /-- For each open branch, innermost first, whether the code around it runs. -/
  around : List Bool := []
  executing : Bool := true
  /-- The questions put to the signature check, first one first. -/
  checked : List CheckedSignature := []
  deriving DecidableEq, Repr

abbrev Exec := Stateful Failure Thread

namespace Exec

/-! ## The two stacks -/

def onMain {α : Type} (x : Stateful Failure Stack α) : Exec α := do
  let t ← get
  let (outcome, main) := x.runFrom t.main
  set { t with main }
  match outcome with
  | .ok a => return a
  | .error failure => throw failure

def onAlt {α : Type} (x : Stateful Failure Stack α) : Exec α := do
  let t ← get
  let (outcome, alt) := x.runFrom t.alt
  set { t with alt }
  match outcome with
  | .ok a => return a
  | .error failure => throw failure

def push (item : Bytes) : Exec Unit := onMain (Stack.push item)

def pop : Exec Bytes := onMain (Stack.pop .main)

/-! ## Conditionals -/

def openBranch (setting : Setting) (wanted : Bool) : Exec Unit := do
  let t ← get
  if setting.maxDepth ≤ t.around.length then throw (.tooDeep setting.maxDepth)
  let runs ← if t.executing then (· == wanted) <$> onMain (Stack.popBool .main) else pure false
  modify fun s => { s with around := t.executing :: s.around, executing := runs }

def flipBranch : Exec Unit := do
  let t ← get
  match t.around with
  | [] => throw (.unmatched Opcode.opElse)
  | outer :: _ => set { t with executing := outer && !t.executing }

def closeBranch : Exec Unit := do
  let t ← get
  match t.around with
  | [] => throw (.unmatched Opcode.opEndIf)
  | outer :: rest => set { t with around := rest, executing := outer }

/-! ## Signatures -/

/-- Takes a key and a signature off the stack. An empty signature is simply not good. -/
def checkSignature (setting : Setting) : Exec Bool := do
  let key ← pop
  let full ← pop
  match full.getLast? with
  | none => return false
  | some flag =>
    match setting.check? with
    | none => throw .noContext
    | some check =>
      let signature := full.dropLast
      modify fun t =>
        { t with checked := t.checked ++ [⟨signature, ⟨flag⟩, key, setting.input⟩] }
      match check signature ⟨flag⟩ key setting.input with
      | .ok good => return good
      | .error failure => throw failure

/-! ## Operations -/

def command (setting : Setting) : Command → Exec Unit
  | .push data => push data
  | .openBranch wanted => openBranch setting wanted
  | .flipBranch => flipBranch
  | .closeBranch => closeBranch
  | .toAlt => do
    let item ← pop
    onAlt (Stack.push item)
  | .fromAlt => do
    let item ← onAlt (Stack.pop .alt)
    push item
  | .dup => do
    let item ← onMain (Stack.peek .main)
    push item
  | .addOne => do
    let n ← onMain (Stack.popNumber .main)
    onMain (Stack.pushNumber (n + 1))
  | .lessThanOrEqual => do
    let b ← onMain (Stack.popNumber .main)
    let a ← onMain (Stack.popNumber .main)
    onMain (Stack.pushBool (a ≤ b))
  | .hash160 => do
    let item ← pop
    push (Digest.hash160 item).val
  | .equalVerify => do
    let b ← pop
    let a ← pop
    if a ≠ b then throw (.notEqual a b)
  | .checkSig => do
    let good ← checkSignature setting
    onMain (Stack.pushBool good)
  | .checkSigVerify => do
    let good ← checkSignature setting
    if !good then throw (.badSignature setting.input)
  | .unsupported op => throw (.unsupported op)

def operation (setting : Setting) (op : Operation) : Exec Unit := do
  let t ← get
  let c := Command.ofOperation op
  if t.executing || c.isConditional then command setting c

def operations (setting : Setting) : List Operation → Exec Unit
  | [] => return ()
  | op :: rest => do
    operation setting op
    operations setting rest

/-- Runs a whole script. A fault counts once it is reached, every branch has to be closed, and the
second stack ends with the script. -/
def script (setting : Setting) (s : Script) : Exec Unit := do
  operations setting s.operations
  match s.fault? with
  | some fault => throw (.undecodable fault.reason)
  | none =>
    let t ← get
    if t.around.isEmpty then set { t with alt := [] } else throw .unclosed

def requireTrue : Exec Unit := do
  let t ← get
  match t.main.requireTrue with
  | .ok () => return ()
  | .error failure => throw failure

/-- Runs a script that has to leave one true item. -/
def evaluation (setting : Setting) (s : Script) : Exec Unit := do
  script setting s
  requireTrue

/-- Runs the script of a spender and then that of the spent output. -/
def spend (setting : Setting) (unlocking locking : Script) : Exec Unit := do
  script setting unlocking
  script setting locking
  requireTrue

end Exec

/-! ## Outcomes -/

/-- The stack that a script leaves. -/
def Script.run (s : Script) (setting : Setting) : Except Failure Stack :=
  match (Exec.script setting s).runFrom {} with
  | (.ok (), t) => .ok t.main
  | (.error failure, _) => .error failure

def Script.evaluate (s : Script) (setting : Setting) : Except Failure Unit :=
  ((Exec.evaluation setting s).runFrom {}).1

def verifySpend (setting : Setting) (unlocking locking : Script) : Except Failure Unit :=
  ((Exec.spend setting unlocking locking).runFrom {}).1

end Utxo
