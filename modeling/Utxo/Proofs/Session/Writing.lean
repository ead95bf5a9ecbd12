import Utxo.Proofs.Session.Reading

/-!
# What was written is found again

Items are written one behind the other, with nothing between them that would tell where one ends.
Whoever knows in which order they come, and how long the bare byte strings are, asks for them in
that order and finds them, whatever stands behind the last one.
-/

namespace Utxo

open Reader

/-- What can be written. A byte string that is framed has a length of 64 bits, as every one has
that fits into memory. -/
inductive Item where
  | bytes (b : Bytes)
  | byte (v : UInt8)
  | u16 (v : UInt16)
  | u32 (v : UInt32)
  | u64 (v : UInt64)
  | compactSize (v : UInt64)
  | frame (b : Bytes) (counted : b.length < UInt64.size)

namespace Item

def encode : Item → Bytes
  | bytes b => b
  | byte v => [v]
  | u16 v => Bytes.ofUInt16 v
  | u32 v => Bytes.ofUInt32 v
  | u64 v => Bytes.ofUInt64 v
  | compactSize v => CompactSize.encode v
  | frame b _ => CompactSize.frame b

/-- Items behind what is there already. -/
def writeAll (out : Bytes) (items : List Item) : Bytes :=
  items.foldl (fun out item => out ++ item.encode) out

/-- The read that finds the item. Of the values it knows only how long a bare byte string is. -/
def read : Item → Read
  | bytes b => .single (.bytes b.length)
  | byte _ => .single .byte
  | u16 _ => .single .u16LE
  | u32 _ => .single .u32LE
  | u64 _ => .single .u64LE
  | compactSize _ => .compactSize
  | frame _ _ => .frame

def found : (item : Item) → item.read.Found
  | bytes b => b
  | byte v => v
  | u16 v => v
  | u32 v => v
  | u64 v => v
  | compactSize v => v
  | frame b _ => b

/-- The answer that tells the item. -/
def answer (item : Item) : Answer := ⟨item.read, .ok item.found⟩

theorem writeAll_eq (out : Bytes) (items : List Item) :
    writeAll out items = out ++ items.flatMap encode := by
  unfold writeAll
  induction items generalizing out with
  | nil => simp
  | cons item items ih => simp [ih]

theorem read_of_takes (item : Item) {c c' : Cursor} (h : Takes c item.encode c') :
    item.read.reader.runFrom c = (.ok item.found, c') :=
  match item with
  | bytes _ => bytes_of_takes rfl h
  | byte _ => byte_of_takes h
  | u16 _ => u16_of_takes h
  | u32 _ => u32_of_takes h
  | u64 _ => u64_of_takes h
  | compactSize _ => CompactSize.read_of_takes h
  | frame _ counted => CompactSize.readFrame_of_takes counted h

theorem ask_of_takes {items : List Item} {c c' : Cursor}
    (h : Takes c (items.flatMap encode) c') :
    c.ask (items.map read) = (items.map answer, c') := by
  induction items generalizing c with
  | nil =>
    rw [takes_nil_iff.mp h]
    rfl
  | cons item items ih =>
    rw [List.flatMap_cons] at h
    obtain ⟨u, hitem, hrest⟩ := Takes.split h
    unfold answer
    simp only [List.map_cons, Cursor.ask, item.read_of_takes hitem, ih hrest]
    rfl

/-- Each item is found again in its turn, and what stands behind the items is left. -/
theorem ask_written (items : List Item) (rest : Bytes) :
    (Cursor.start (writeAll [] items ++ rest)).ask (items.map read) =
      (items.map answer, ⟨(writeAll [] items).length, rest⟩) := by
  apply ask_of_takes
  rw [writeAll_eq, List.nil_append]
  exact takes_start _ rest

/-- The bytes alone do not tell where one of the items ends. -/
example : writeAll [] [.u16 0x1234, .compactSize 300, .bytes [0xaa], .frame [0xbb] (by decide)] =
    [0x34, 0x12, 0xfd, 0x2c, 0x01, 0xaa, 0x01, 0xbb] := by decide

end Item

end Utxo
