import Utxo.Payload.Basic

/-!
# Decoding payloads in payloads

A context knows how many levels deeper decoding may still go. Every payload, transaction or script
that stands in another payload is one level deeper.
-/

namespace Utxo

/-- How many levels there are unless it is told otherwise. -/
def PayloadContext.defaultLimit : Nat := 4

structure PayloadContext where
  schemas : SchemaSet
  decoder : PayloadDecoder := .wire
  /-- How many levels there are below the outermost one. -/
  limit : Nat := PayloadContext.defaultLimit
  /-- How many of them are left. -/
  levels : Nat := limit

namespace PayloadContext

/-- How many levels have been gone down. -/
def depth (c : PayloadContext) : Nat := c.limit - c.levels

/-- An outermost context with another number of levels, all of them left. It is made from one that is
outermost, too: of a deeper one it forgets how deep that is. -/
def withLimit (c : PayloadContext) (limit : Nat) : PayloadContext :=
  { c with limit, levels := limit }

def nested (c : PayloadContext) : Except PayloadError PayloadContext :=
  match c.levels with
  | 0 => .error (.tooDeep c.limit)
  | levels + 1 => .ok { c with levels }

def decodePayload (c : PayloadContext) (kind : PayloadKind) (code : PayloadCode) (b : Bytes) :
    Except PayloadError Payload :=
  let schema := c.schemas.get kind
  match schema.payload? code with
  | none => .ok { kind, code }
  | some type => do return { kind, code, body? := some ⟨type, ← c.decoder schema type b⟩ }

/-- Decodes a payload and what it carries. -/
def decode (c : PayloadContext) (kind : PayloadKind) (code : PayloadCode) (b : Bytes) :
    Except PayloadError Content := do
  let payload ← c.decodePayload kind code b
  match payload.carried? with
  | none => return { payload }
  | some carried =>
    let deeper ← c.nested
    let inner ← deeper.decodePayload carried.kind carried.code carried.bytes
    return { payload, carried? := some inner }

def decodeAction (c : PayloadContext) (code : PayloadCode) (b : Bytes) :
    Except PayloadError Content :=
  c.decode .actions code.current b

end PayloadContext

end Utxo
