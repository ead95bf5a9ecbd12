import Utxo.Digest
import Utxo.Script.Basic

/-! # Scripts described for readers -/

namespace Utxo

namespace Operation

/-- An operation with its operand as a number and as a text. -/
def describe (op : Operation) : Json := .record [
  ("opcode", .nat op.opcode.toNat),
  ("is_push", .bool op.isPush),
  ("asm", .text op.text),
  ("number", .optional .integer (op.operand?.bind (ScriptNumber.decode? ScriptNumber.maxWidth))),
  ("text", .optional (fun b => .text (Utf8.decode b)) op.operand?),
  ("json", op.toJson)]

/-- The lengths of the parts of an operation. -/
def outline (op : Operation) : Json := .array [
  .nat op.opcode.toNat,
  .optional (fun b => .nat b.length) op.operand?,
  .nat op.encode.length]

end Operation

namespace ScriptFault

def describe (f : ScriptFault) : Json := .record [
  ("reason", .text f.reason.message), ("remainder", .hex f.remainder)]

def outline (f : ScriptFault) : Json := .array [.text f.reason.message, .nat f.remainder.length]

end ScriptFault

namespace Script

/-- Whether decoding what the script is written as gives the script back. -/
def isCanonical (s : Script) : Bool := decode s.encode = s

/-- All there is to know of a script. -/
def describe (s : Script) : Json := .record [
  ("operations", .list Operation.describe s.operations),
  ("fault", .optional ScriptFault.describe s.fault?),
  ("has_fault", .bool s.hasFault),
  ("is_empty", .bool s.isEmpty),
  ("names", .list .text s.names),
  ("asm", .text s.text),
  ("display", .text s.text),
  ("debug", .text ("Script(" ++ s.text ++ ")")),
  ("encoded_len", .nat s.length),
  ("bytes", .hex s.encode),
  ("json", s.toJson),
  ("redecoded_equal", .bool s.isCanonical)]

/-- The lengths of the parts of a script, its first bytes and a digest of all of them. -/
def outline (s : Script) : Json := .record [
  ("operations", .list Operation.outline s.operations),
  ("fault", .optional ScriptFault.outline s.fault?),
  ("encoded_len", .nat s.length),
  ("head", .hex (s.encode.take 8)),
  ("sha256", .hex (Digest.sha256 s.encode).val),
  ("redecoded_equal", .bool s.isCanonical)]

end Script

end Utxo
