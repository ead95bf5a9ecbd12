import Utxo.Bytes.CompactSize
import Utxo.Script.Operation

/-!
# Scripts

Decoding never fails. Where an operation lacks bytes it stops, and the bytes from there on are kept
with the reason; so encoding always gives back the bytes that were decoded.
-/

namespace Utxo

/-- Why decoding stopped, and the bytes from the broken operation on. -/
structure ScriptFault where
  reason : Truncated
  remainder : Bytes
  deriving DecidableEq, Repr

structure Script where
  operations : List Operation := []
  fault? : Option ScriptFault := none
  deriving DecidableEq

namespace Script

def ofOperations (operations : List Operation) : Script := ⟨operations, none⟩

/-! ## Decoding -/

/-- The script that starts with the operations `seen`, last one first, and goes on at `c`. -/
def decodeFrom (seen : List Operation) (c : Cursor) : Script :=
  if c.atEnd then ⟨seen.reverse, none⟩
  else
    match _h : Operation.read.runFrom c with
    | (.ok op, next) => decodeFrom (op :: seen) next
    | (.error reason, _) => ⟨seen.reverse, some ⟨reason, c.rest⟩⟩
termination_by c.rest.length
decreasing_by exact Operation.length_lt_of_read _h

def decode (b : Bytes) : Script := decodeFrom [] (.start b)

/-- Reads a script behind its length. Only the length and the number of bytes can be wrong. -/
def read : Reader Truncated Script := do return decode (← CompactSize.readFrame)

/-! ## Views -/

def encode (s : Script) : Bytes :=
  s.operations.flatMap Operation.encode ++ (s.fault?.elim [] (·.remainder))

def length (s : Script) : Nat :=
  s.operations.foldr (fun op n => op.encode.length + n) 0 + s.fault?.elim 0 (·.remainder.length)

def hasFault (s : Script) : Bool := s.fault?.isSome

def isEmpty (s : Script) : Bool := s.operations.isEmpty && s.fault?.isNone

def names (s : Script) : List String := s.operations.map Operation.name

/-- The operations in words, and a last word for a fault. -/
def text (s : Script) : String :=
  " ".intercalate (s.operations.map Operation.text ++ if s.hasFault then ["[error]"] else [])

/-- A script behind its length. -/
def frame (s : Script) : Bytes := CompactSize.frame s.encode

def ofHex (digits : String) : Except Hex.Fault Script := decode <$> Hex.decode digits

def toJson (s : Script) : Json := .hex s.encode

def ofJson? (j : Json) : Option Script := decode <$> j.hex?

end Script

end Utxo
