/-!
# What a signature covers

The last byte of a signature in a script says which parts of the transaction it covers. The whole
byte is kept, since it is signed too.
-/

namespace Utxo

/-- Which outputs a signature covers. -/
inductive SignedOutputs where
  | all
  | none
  | single
  deriving DecidableEq, Repr

structure SigHashFlags where
  byte : UInt8
  deriving DecidableEq, Repr

namespace SigHashFlags

/-- The low five bits; values without a meaning cover everything. -/
def base (flags : SigHashFlags) : SignedOutputs :=
  let low := flags.byte &&& 0x1f
  if low = 2 then .none else if low = 3 then .single else .all

/-- Whether the signature commits to the value it spends. -/
def forkId (flags : SigHashFlags) : Bool := flags.byte &&& 0x40 != 0

/-- Whether the signature leaves the other inputs open. -/
def anyoneCanPay (flags : SigHashFlags) : Bool := flags.byte &&& 0x80 != 0

def name (flags : SigHashFlags) : String :=
  (match flags.base with
    | .all => "ALL"
    | .none => "NONE"
    | .single => "SINGLE") ++
  (if flags.forkId then "|FORKID" else "") ++
  (if flags.anyoneCanPay then "|ANYONECANPAY" else "")

end SigHashFlags

end Utxo
