import Utxo.Bytes
import Utxo.Stateful

/-!
# Reading from the front of a byte string

A cursor is an offset and the bytes that follow it. A reader keeps the cursor it stopped at also
when it fails: one read that lacks bytes leaves the cursor alone, and a reader made of several
stops behind the last one that succeeded.
-/

namespace Utxo

/-- A read asked for more bytes than were left. -/
structure Truncated where
  needed : Nat
  remaining : Nat
  deriving DecidableEq, Repr

def Truncated.message (t : Truncated) : String :=
  s!"truncated input: needed {t.needed} bytes, {t.remaining} remaining"

structure Cursor where
  position : Nat
  rest : Bytes
  deriving DecidableEq, Repr

namespace Cursor

def start (data : Bytes) : Cursor := ⟨0, data⟩

def remaining (c : Cursor) : Nat := c.rest.length

def atEnd (c : Cursor) : Bool := c.rest.isEmpty

end Cursor

/-- A computation that reads at a cursor and may fail with `ε`. -/
abbrev Reader (ε : Type) := Stateful ε Cursor

namespace Reader

def fixed (n : Nat) : Reader Truncated (FixedBytes n) := do
  let c ← get
  if h : (c.rest.take n).length = n then
    set (⟨c.position + n, c.rest.drop n⟩ : Cursor)
    return ⟨c.rest.take n, h⟩
  else
    throw ⟨n, c.remaining⟩

def bytes (n : Nat) : Reader Truncated Bytes := do return (← fixed n).val

def byte : Reader Truncated UInt8 := do return (← bytes 1).headD 0

def u16LE : Reader Truncated UInt16 := do return UInt16.ofNat (Bytes.toNatLE (← bytes 2))

def u16BE : Reader Truncated UInt16 := do return UInt16.ofNat (Bytes.toNatBE (← bytes 2))

def u32LE : Reader Truncated UInt32 := do return UInt32.ofNat (Bytes.toNatLE (← bytes 4))

def u32BE : Reader Truncated UInt32 := do return UInt32.ofNat (Bytes.toNatBE (← bytes 4))

def u64LE : Reader Truncated UInt64 := do return UInt64.ofNat (Bytes.toNatLE (← bytes 8))

/-- What `reader` finds, `count` times over; the first failure ends it. -/
def times {ε α : Type} (reader : Reader ε α) : (count : Nat) → Reader ε (List α)
  | 0 => return []
  | count + 1 => do
    let first ← reader
    return first :: (← times reader count)

/-! ## What a read took -/

/-- From `c` to `c'` a reader has taken exactly the bytes `b`. -/
def Takes (c : Cursor) (b : Bytes) (c' : Cursor) : Prop :=
  c.rest = b ++ c'.rest ∧ c'.position = c.position + b.length

theorem Takes.trans {c c' c'' : Cursor} {a b : Bytes} (h : Takes c a c') (h' : Takes c' b c'') :
    Takes c (a ++ b) c'' := by
  refine ⟨?_, ?_⟩
  · rw [h.1, h'.1, List.append_assoc]
  · rw [h'.2, h.2, List.length_append, Nat.add_assoc]

theorem fixed_ok {n : Nat} {c c' : Cursor} {b : FixedBytes n}
    (h : (fixed n).runFrom c = (.ok b, c')) : Takes c b.val c' := by
  unfold fixed at h
  simp only [Stateful.runFrom_bind, Stateful.runFrom_get] at h
  split at h
  · simp only [Stateful.runFrom_bind, Stateful.runFrom_set, Stateful.runFrom_pure, Prod.mk.injEq,
      Except.ok.injEq] at h
    obtain ⟨rfl, rfl⟩ := h
    exact ⟨(List.take_append_drop n c.rest).symm, by simp_all⟩
  · simp at h

theorem bytes_ok {n : Nat} {c c' : Cursor} {b : Bytes} (h : (bytes n).runFrom c = (.ok b, c')) :
    b.length = n ∧ Takes c b c' := by
  obtain ⟨f, u, hf, h⟩ := Stateful.runFrom_bind_ok.mp h
  cases h
  exact ⟨f.property, fixed_ok hf⟩

theorem byte_ok {c c' : Cursor} {b : UInt8} (h : byte.runFrom c = (.ok b, c')) :
    Takes c [b] c' := by
  obtain ⟨bs, u, hb, h⟩ := Stateful.runFrom_bind_ok.mp h
  cases h
  obtain ⟨hlen, htakes⟩ := bytes_ok hb
  obtain ⟨x, rfl⟩ := List.length_eq_one_iff.mp hlen
  exact htakes

theorem u16BE_ok {c c' : Cursor} {v : UInt16} (h : u16BE.runFrom c = (.ok v, c')) :
    Takes c (Bytes.ofNatBE 2 v.toNat) c' := by
  obtain ⟨b, u, hb, h⟩ := Stateful.runFrom_bind_ok.mp h
  cases h
  obtain ⟨hlen, htakes⟩ := bytes_ok hb
  have hlt := Bytes.toNatBE_lt b
  have hb := Bytes.ofNatBE_toNatBE b
  rw [hlen] at hlt hb
  rwa [UInt16.toNat_ofNat_of_lt' hlt, hb]

theorem u32BE_ok {c c' : Cursor} {v : UInt32} (h : u32BE.runFrom c = (.ok v, c')) :
    Takes c (Bytes.ofNatBE 4 v.toNat) c' := by
  obtain ⟨b, u, hb, h⟩ := Stateful.runFrom_bind_ok.mp h
  cases h
  obtain ⟨hlen, htakes⟩ := bytes_ok hb
  have hlt := Bytes.toNatBE_lt b
  have hb := Bytes.ofNatBE_toNatBE b
  rw [hlen] at hlt hb
  rwa [UInt32.toNat_ofNat_of_lt' hlt, hb]

end Reader

end Utxo
