import Utxo.Envelope.Error
import Utxo.Script.Basic

/-!
# Reading pushes

An envelope is pushes one behind the other. A reader of pushes takes operations off the front of a
script and stops before one that pushes nothing.
-/

namespace Utxo

/-- A computation that takes pushes off the front of a list of operations. -/
abbrev PushReader := Stateful EnvelopeError (List Operation)

namespace PushReader

/-- The next operation's operand, if it has one. -/
def next? : PushReader (Option Bytes) := do
  match ← get with
  | [] => return none
  | op :: rest =>
    match op.operand? with
    | none => return none
    | some b =>
      set rest
      return some b

/-- A push that has to be there. -/
def next (part : String) : PushReader Bytes := do
  match ← next? with
  | some b => return b
  | none => throw (.missing part)

/-- A count of pushes: at most as many as there are operations behind it. -/
def count (part : String) : PushReader Nat := do
  let b ← next part
  let left := (← get).length
  match ScriptNumber.decode? ScriptNumber.maxWidth b with
  | some (.ofNat n) => if n ≤ left then return n else throw (.badCount part b)
  | _ => throw (.badCount part b)

def times (part : String) : (count : Nat) → PushReader (List Bytes)
  | 0 => return []
  | count + 1 => do
    let first ← next part
    return first :: (← times part count)

/-- Pushes behind their count. -/
def counted (countPart part : String) : PushReader (List Bytes) := do
  times part (← count countPart)

end PushReader

end Utxo
