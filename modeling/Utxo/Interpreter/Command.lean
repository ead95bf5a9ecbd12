import Utxo.Script.Operation

/-! # What an operation asks the interpreter to do -/

namespace Utxo

inductive Command where
  | push (data : Bytes)
  /-- Opens a branch that runs if the condition is `wanted`. -/
  | openBranch (wanted : Bool)
  | flipBranch
  | closeBranch
  | toAlt
  | fromAlt
  | dup
  | addOne
  | lessThanOrEqual
  | hash160
  | equalVerify
  | checkSig
  | checkSigVerify
  | unsupported (op : Opcode)
  deriving DecidableEq, Repr

namespace Command

/-- Conditionals are followed also in branches that do not run. -/
def isConditional : Command → Bool
  | openBranch _ | flipBranch | closeBranch => true
  | _ => false

/-- A push opcode that carries no data pushes the empty string. -/
def ofOperation (operation : Operation) : Command :=
  let op := operation.opcode
  if op.isPush then push (operation.operand?.getD [])
  else if op = Opcode.opIf then openBranch true
  else if op = Opcode.opNotIf then openBranch false
  else if op = Opcode.opElse then flipBranch
  else if op = Opcode.opEndIf then closeBranch
  else if op = Opcode.toAltStack then toAlt
  else if op = Opcode.fromAltStack then fromAlt
  else if op = Opcode.dup then dup
  else if op = Opcode.add1 then addOne
  else if op = Opcode.lessThanOrEqual then lessThanOrEqual
  else if op = Opcode.hash160 then hash160
  else if op = Opcode.equalVerify then equalVerify
  else if op = Opcode.checkSig then checkSig
  else if op = Opcode.checkSigVerify then checkSigVerify
  else unsupported op

end Command

end Utxo
