/-!
# Opcodes

An opcode is a byte. The ones up to `60`, apart from the reserved `50`, push data and share one
name; those from `61` to `b9` have names of their own.
-/

namespace Utxo

abbrev Opcode := UInt8

namespace Opcode

/-! ## Pushes -/

@[match_pattern] def push0 : Opcode := 0x00

@[match_pattern] def pushData1 : Opcode := 0x4c

@[match_pattern] def pushData2 : Opcode := 0x4d

@[match_pattern] def pushData4 : Opcode := 0x4e

@[match_pattern] def push1Negate : Opcode := 0x4f

@[match_pattern] def reserved : Opcode := 0x50

@[match_pattern] def push1 : Opcode := 0x51

@[match_pattern] def push16 : Opcode := 0x60

def isPush (op : Opcode) : Bool := op ≤ push16 && op != reserved

/-! ## Opcodes that scripts run or that mark a kind of script -/

@[match_pattern] def opIf : Opcode := 0x63

@[match_pattern] def opNotIf : Opcode := 0x64

@[match_pattern] def opElse : Opcode := 0x67

@[match_pattern] def opEndIf : Opcode := 0x68

@[match_pattern] def opReturn : Opcode := 0x6a

@[match_pattern] def toAltStack : Opcode := 0x6b

@[match_pattern] def fromAltStack : Opcode := 0x6c

@[match_pattern] def dup : Opcode := 0x76

@[match_pattern] def equalVerify : Opcode := 0x88

@[match_pattern] def add1 : Opcode := 0x8b

@[match_pattern] def lessThanOrEqual : Opcode := 0xa1

@[match_pattern] def hash160 : Opcode := 0xa9

@[match_pattern] def checkSig : Opcode := 0xac

@[match_pattern] def checkSigVerify : Opcode := 0xad

/-! ## Names -/

/-- The names from `61` on. -/
def names : List String := [
  "NOP", "VER", "IF", "NOTIF", "VERIF", "VERNOTIF", "ELSE", "ENDIF", "VERIFY", "RETURN",
  "TOALTSTACK", "FROMALTSTACK", "2DROP", "2DUP", "3DUP", "2OVER", "2ROT", "2SWAP", "IFDUP",
  "DEPTH", "DROP", "DUP", "NIP", "OVER", "PICK", "ROLL", "ROT", "SWAP", "TUCK", "CAT",
  "SPLIT", "NUM2BIN", "BIN2NUM", "SIZE", "INVERT", "AND", "OR", "XOR", "EQUAL",
  "EQUALVERIFY", "RESERVED1", "RESERVED2", "1ADD", "1SUB", "2MUL", "2DIV", "NEGATE", "ABS",
  "NOT", "0NOTEQUAL", "ADD", "SUB", "MUL", "DIV", "MOD", "LSHIFT", "RSHIFT", "BOOLAND",
  "BOOLOR", "NUMEQUAL", "NUMEQUALVERIFY", "NUMNOTEQUAL", "LESSTHAN", "GREATERTHAN",
  "LESSTHANOREQUAL", "GREATERTHANOREQUAL", "MIN", "MAX", "WITHIN", "RIPEMD160", "SHA1",
  "SHA256", "HASH160", "HASH256", "CODESEPARATOR", "CHECKSIG", "CHECKSIGVERIFY",
  "CHECKMULTISIG", "CHECKMULTISIGVERIFY", "NOP1", "NOP2", "NOP3", "NOP4", "NOP5", "NOP6",
  "NOP7", "NOP8", "NOP9", "NOP10"]

def name (op : Opcode) : String :=
  if op = reserved then "RESERVED"
  else if op ≤ push16 then "PUSH"
  else names.getD (op.toNat - 0x61) "UNKNOWN"

/-- The byte as `0x` and two digits. -/
def hexName (op : Opcode) : String := "0x" ++ String.ofList
  ["0123456789abcdef".toList.getD (op.toNat / 16) '0',
    "0123456789abcdef".toList.getD (op.toNat % 16) '0']

end Opcode

end Utxo
