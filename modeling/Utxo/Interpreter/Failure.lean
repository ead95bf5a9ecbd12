import Utxo.Bytes.Cursor
import Utxo.Script.Opcode
import Utxo.Text.Hex

/-! # Why running a script fails -/

namespace Utxo

inductive StackName where
  | main
  | alt
  | unnamed
  deriving DecidableEq, Repr

def StackName.label : StackName → String
  | main => "main"
  | alt => "alt"
  | unnamed => ""

inductive Failure where
  | emptyStack (stack : StackName)
  | tooWide (item : Bytes) (limit : Nat)
  | notEqual (a b : Bytes)
  | badSignature (input : Nat)
  | itemCount (count : Nat)
  | falseResult
  | resultTooWide (item : Bytes)
  | unsupported (op : Opcode)
  | undecodable (reason : Truncated)
  | unmatched (op : Opcode)
  | unclosed
  | tooDeep (limit : Nat)
  | noContext
  | noInput (index count : Nat)
  deriving DecidableEq, Repr

/-- The kinds of failure that callers tell apart. -/
inductive FailureCode where
  | stackUnderflow
  | typeMismatch
  | equalVerifyFailed
  | signatureVerificationFailed
  | scriptNotTruthy
  | unsupportedOpcode
  | unbalancedConditional
  | conditionalTooDeep
  | missingContext
  | invalidInputIndex
  deriving DecidableEq, Repr

def FailureCode.name : FailureCode → String
  | stackUnderflow => "StackUnderflow"
  | typeMismatch => "TypeMismatch"
  | equalVerifyFailed => "EqualVerifyFailed"
  | signatureVerificationFailed => "SignatureVerificationFailed"
  | scriptNotTruthy => "ScriptNotTruthy"
  | unsupportedOpcode => "UnsupportedOpcode"
  | unbalancedConditional => "UnbalancedConditional"
  | conditionalTooDeep => "ConditionalTooDeep"
  | missingContext => "MissingContext"
  | invalidInputIndex => "InvalidInputIndex"

/-- How an input that a transaction does not have is reported. -/
def noInputMessage (index count : Nat) : String :=
  s!"input index {index} out of range (tx has {count} inputs)"

namespace Failure

def code : Failure → FailureCode
  | emptyStack _ => .stackUnderflow
  | tooWide _ _ => .typeMismatch
  | notEqual _ _ => .equalVerifyFailed
  | badSignature _ => .signatureVerificationFailed
  | itemCount _ | falseResult | resultTooWide _ => .scriptNotTruthy
  | unsupported _ | undecodable _ => .unsupportedOpcode
  | unmatched _ | unclosed => .unbalancedConditional
  | tooDeep _ => .conditionalTooDeep
  | noContext => .missingContext
  | noInput _ _ => .invalidInputIndex

def description : Failure → String
  | emptyStack stack => s!"attempt to read from empty {stack.label} stack"
  | tooWide item limit =>
    s!"numeric value encoded as {Hex.encode item} is {item.length} bytes which exceeds the max " ++
      s!"allowed of {limit}"
  | notEqual a b => s!"{Hex.encode a} != {Hex.encode b}"
  | badSignature input => s!"signature check failed for input {input}"
  | itemCount count => s!"expected exactly one stack item at end of script, found {count}"
  | falseResult => "false stack entry at end of script execution"
  | resultTooWide item => s!"final stack entry {Hex.encode item} is not a number"
  | unsupported op => s!"attempt to execute unsupported opcode {op.name} ({op.hexName})"
  | undecodable reason => s!"script could not be fully decoded: {reason.message}"
  | unmatched op =>
    s!"encountered opcode {op.name} with no matching opcode to begin conditional execution"
  | unclosed => "end of script reached in conditional execution"
  | tooDeep limit => s!"conditional nesting exceeds the max allowed depth of {limit}"
  | noContext => "no tx context for checksig"
  | noInput index count => noInputMessage index count

def message (f : Failure) : String := f.code.name ++ ": " ++ f.description

end Failure

end Utxo
