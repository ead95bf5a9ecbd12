import Utxo.Wire.Skip

/-!
# Headers of envelopes

A header is a message of five fields. Fields that come again replace what they held, but encrypted
payloads add up; numbers above five are passed over.
-/

namespace Utxo

structure EnvelopeHeader where
  version : UInt64 := 0
  type : Bytes := []
  /-- The code of the payload. -/
  identifier : Bytes := []
  metaNet : Bytes := []
  encryptedPayloads : List Bytes := []
  deriving DecidableEq, Repr

inductive HeaderField where
  | version
  | type
  | identifier
  | metaNet
  | encryptedPayloads
  deriving DecidableEq, Repr

namespace HeaderField

def number : HeaderField → Nat
  | version => 1
  | type => 2
  | identifier => 3
  | metaNet => 4
  | encryptedPayloads => 5

def ofNumber? : Nat → Option HeaderField
  | 1 => some version
  | 2 => some type
  | 3 => some identifier
  | 4 => some metaNet
  | 5 => some encryptedPayloads
  | _ => none

theorem ofNumber?_number (f : HeaderField) : ofNumber? f.number = some f := by cases f <;> rfl

def name : HeaderField → String
  | version => "version"
  | type => "r#type"
  | identifier => "identifier"
  | metaNet => "meta_net"
  | encryptedPayloads => "encrypted_payloads"

end HeaderField

/-- What is wrong with a header, and the field that it is wrong with, if it is one of the five. -/
structure HeaderError where
  field? : Option HeaderField
  fault : WireFault
  deriving DecidableEq, Repr

def HeaderError.message (e : HeaderError) : String :=
  e.fault.message (e.field?.elim "" fun f => "EnvelopeHeader." ++ f.name ++ ": ")

namespace EnvelopeHeader

/-! ## Writing -/

/-- Bytes, unless there are none. -/
def encodeBytes (field : HeaderField) (b : Bytes) : Bytes :=
  if b = [] then [] else Wire.encodeDelimited field.number b

/-- The fields in the order of their numbers. Zero and single fields without bytes are left out. -/
def encode (h : EnvelopeHeader) : Bytes :=
  (if h.version = 0 then [] else Wire.encodeVarint HeaderField.version.number h.version.toNat) ++
    encodeBytes .type h.type ++
    encodeBytes .identifier h.identifier ++
    encodeBytes .metaNet h.metaNet ++
    h.encryptedPayloads.flatMap (Wire.encodeDelimited HeaderField.encryptedPayloads.number)

/-! ## Reading -/

def expect (actual expected : WireType) : WireReader WireFault Unit :=
  if actual = expected then return () else throw (.unexpectedType actual expected)

def readBytes (wireType : WireType) : WireReader WireFault Bytes := do
  expect wireType .delimited
  let n ← Varint.read
  (WireReader.take n.toNat).blame fun _ => .underflow

def readValue (h : EnvelopeHeader) (wireType : WireType) :
    HeaderField → WireReader WireFault EnvelopeHeader
  | .version => do
    expect wireType .varint
    return { h with version := ← Varint.read }
  | .type => do return { h with type := ← readBytes wireType }
  | .identifier => do return { h with identifier := ← readBytes wireType }
  | .metaNet => do return { h with metaNet := ← readBytes wireType }
  | .encryptedPayloads => do
    let b ← readBytes wireType
    return { h with encryptedPayloads := h.encryptedPayloads ++ [b] }

def readField (h : EnvelopeHeader) : WireReader HeaderError EnvelopeHeader := do
  let key ← WireKey.read.blame (⟨none, ·⟩)
  match HeaderField.ofNumber? key.number with
  | none =>
    (Wire.skip key).blame (⟨none, ·⟩)
    return h
  | some field => (readValue h key.wireType field).blame (⟨some field, ·⟩)

theorem takesAtLeast_expect (actual expected : WireType) :
    WireReader.TakesAtLeast 0 (expect actual expected) := by
  unfold expect
  split
  · exact WireReader.takesAtLeast_pure _
  · exact WireReader.takesAtLeast_throw _ _

theorem takesAtLeast_readBytes (wireType : WireType) :
    WireReader.TakesAtLeast 0 (readBytes wireType) :=
  (takesAtLeast_expect _ _).then fun _ =>
    (Varint.takesAtLeast_read.mono (Nat.zero_le 1)).then fun n =>
      ((WireReader.takesAtLeast_take n.toNat).blame _).mono (Nat.zero_le _)

theorem takesAtLeast_readValue (h : EnvelopeHeader) (wireType : WireType) (field : HeaderField) :
    WireReader.TakesAtLeast 0 (readValue h wireType field) := by
  have hbytes := takesAtLeast_readBytes wireType
  cases field
  · exact (takesAtLeast_expect _ _).then fun _ =>
      (Varint.takesAtLeast_read.mono (Nat.zero_le 1)).then fun _ => WireReader.takesAtLeast_pure _
  all_goals exact hbytes.then fun _ => WireReader.takesAtLeast_pure _

theorem takesAtLeast_readField (h : EnvelopeHeader) :
    WireReader.TakesAtLeast 1 (readField h) := by
  refine (WireKey.takesAtLeast_read.blame _).then fun key => ?_
  split
  · exact ((Wire.takesAtLeast_skip key).blame _).then fun _ => WireReader.takesAtLeast_pure _
  · exact (takesAtLeast_readValue _ _ _).blame _

def decode (b : Bytes) : Except HeaderError EnvelopeHeader :=
  WireReader.foldToEnd readField takesAtLeast_readField {} b

end EnvelopeHeader

end Utxo
