import Utxo.Interpreter.Failure
import Utxo.Script.Number
import Utxo.Stateful

/-! # Stacks of byte strings, top first -/

namespace Utxo

abbrev Stack := List Bytes

namespace Stack

/-- The widest number that an operation takes. -/
def numberWidth : Nat := 4

/-- A byte string as a number for an operation. -/
def number (limit : Nat) (item : Bytes) : Except Failure Int :=
  match ScriptNumber.decode? limit item with
  | some n => .ok n
  | none => .error (.tooWide item limit)

def push (item : Bytes) : Stateful Failure Stack Unit := modify (item :: ·)

def pushNumber (n : Int) : Stateful Failure Stack Unit := push (ScriptNumber.encode n)

def pushBool (v : Bool) : Stateful Failure Stack Unit := push (ScriptNumber.ofBool v)

def clear : Stateful Failure Stack Unit := set ([] : Stack)

def pop (name : StackName) : Stateful Failure Stack Bytes := do
  match ← get with
  | [] => throw (.emptyStack name)
  | top :: rest =>
    set rest
    return top

/-- The item is gone also if it is no number. -/
def popNumber (name : StackName) : Stateful Failure Stack Int := do
  let item ← pop name
  match number numberWidth item with
  | .ok n => return n
  | .error failure => throw failure

def popBool (name : StackName) : Stateful Failure Stack Bool := do
  return ScriptNumber.isTrue (← pop name)

def peek (name : StackName) : Stateful Failure Stack Bytes := do
  match ← get with
  | [] => throw (.emptyStack name)
  | top :: _ => return top

/-- Demands one item, a number other than zero. -/
def requireTrue (stack : Stack) : Except Failure Unit :=
  match stack with
  | [item] =>
    match ScriptNumber.decode? numberWidth item with
    | none => .error (.resultTooWide item)
    | some 0 => .error .falseResult
    | some _ => .ok ()
  | _ => .error (.itemCount stack.length)

end Stack

end Utxo
