import Utxo.Bytes

/-!
# RIPEMD-160

Two lines of eighty steps work on the same block side by side and are added up at its end.
-/

namespace Utxo.Ripemd160

structure State where
  a : UInt32
  b : UInt32
  c : UInt32
  d : UInt32
  e : UInt32

def State.initial : State := ⟨0x67452301, 0xefcdab89, 0x98badcfe, 0x10325476, 0xc3d2e1f0⟩

/-! ## The two lines -/

/-- Which word of the block a step takes. -/
def leftWords : List Nat := [
  0, 1, 2, 3, 4, 5, 6, 7, 8, 9, 10, 11, 12, 13, 14, 15,
  7, 4, 13, 1, 10, 6, 15, 3, 12, 0, 9, 5, 2, 14, 11, 8,
  3, 10, 14, 4, 9, 15, 8, 1, 2, 7, 0, 6, 13, 11, 5, 12,
  1, 9, 11, 10, 0, 8, 12, 4, 13, 3, 7, 15, 14, 5, 6, 2,
  4, 0, 5, 9, 7, 12, 2, 10, 14, 1, 3, 8, 11, 6, 15, 13]

def rightWords : List Nat := [
  5, 14, 7, 0, 9, 2, 11, 4, 13, 6, 15, 8, 1, 10, 3, 12,
  6, 11, 3, 7, 0, 13, 5, 10, 14, 15, 8, 12, 4, 9, 1, 2,
  15, 5, 1, 3, 7, 14, 6, 9, 11, 8, 12, 2, 10, 0, 4, 13,
  8, 6, 4, 1, 3, 11, 15, 0, 5, 12, 2, 13, 9, 7, 10, 14,
  12, 15, 10, 4, 1, 5, 8, 7, 6, 2, 13, 14, 0, 3, 9, 11]

/-- How far a step turns its sum. -/
def leftTurns : List UInt32 := [
  11, 14, 15, 12, 5, 8, 7, 9, 11, 13, 14, 15, 6, 7, 9, 8,
  7, 6, 8, 13, 11, 9, 7, 15, 7, 12, 15, 9, 11, 7, 13, 12,
  11, 13, 6, 7, 14, 9, 13, 15, 14, 8, 13, 6, 5, 12, 7, 5,
  11, 12, 14, 15, 14, 15, 9, 8, 9, 14, 5, 6, 8, 6, 5, 12,
  9, 15, 5, 11, 6, 8, 13, 12, 5, 12, 13, 14, 11, 8, 5, 6]

def rightTurns : List UInt32 := [
  8, 9, 9, 11, 13, 15, 15, 5, 7, 7, 8, 11, 14, 14, 12, 6,
  9, 13, 15, 7, 12, 8, 9, 11, 7, 7, 12, 7, 6, 15, 13, 11,
  9, 7, 15, 11, 8, 6, 6, 14, 12, 13, 5, 14, 13, 13, 7, 5,
  15, 5, 8, 11, 14, 14, 6, 14, 6, 9, 12, 9, 12, 5, 15, 8,
  8, 5, 12, 9, 12, 5, 14, 6, 8, 13, 6, 5, 15, 13, 11, 11]

/-- The constant of each sixteen steps. -/
def leftConstants : List UInt32 := [0x00000000, 0x5a827999, 0x6ed9eba1, 0x8f1bbcdc, 0xa953fd4e]

def rightConstants : List UInt32 := [0x50a28be6, 0x5c4dd124, 0x6d703ef3, 0x7a6d76e9, 0x00000000]

/-- How each sixteen steps mix three words; the right line goes through the same list backwards. -/
def mix (phase : Nat) (x y z : UInt32) : UInt32 :=
  match phase with
  | 0 => x ^^^ y ^^^ z
  | 1 => (x &&& y) ||| (~~~x &&& z)
  | 2 => (x ||| ~~~y) ^^^ z
  | 3 => (x &&& z) ||| (y &&& ~~~z)
  | _ => x ^^^ (y ||| ~~~z)

/-! ## One block -/

def rotateLeft (x n : UInt32) : UInt32 := (x <<< n) ||| (x >>> (32 - n))

def step (phase : Nat) (word constant turn : UInt32) (s : State) : State :=
  let sum := rotateLeft (s.a + mix phase s.b s.c s.d + word + constant) turn + s.e
  ⟨s.e, sum, s.b, rotateLeft s.c 10, s.d⟩

def leftLine (block : List UInt32) (s : State) : State :=
  ((leftWords.zip leftTurns).zipIdx).foldl (fun s ((w, turn), i) =>
    step (i / 16) (block.getD w 0) (leftConstants.getD (i / 16) 0) turn s) s

def rightLine (block : List UInt32) (s : State) : State :=
  ((rightWords.zip rightTurns).zipIdx).foldl (fun s ((w, turn), i) =>
    step (4 - i / 16) (block.getD w 0) (rightConstants.getD (i / 16) 0) turn s) s

def words (block : Bytes) : List UInt32 :=
  (Bytes.chunks 4 block).map fun w => UInt32.ofNat (Bytes.toNatLE w)

def compress (s : State) (block : Bytes) : State :=
  let l := leftLine (words block) s
  let r := rightLine (words block) s
  ⟨s.b + l.c + r.d, s.c + l.d + r.e, s.d + l.e + r.a, s.e + l.a + r.b, s.a + l.b + r.c⟩

/-! ## Messages -/

/-- The message, a one bit, zeros up to eight bytes before the end of a block, and the length of
the message in bits. -/
def pad (message : Bytes) : Bytes :=
  message ++ 0x80 :: List.replicate ((119 - message.length % 64) % 64) 0 ++
    Bytes.ofNatLE 8 (8 * message.length)

def State.toBytes (s : State) : FixedBytes 20 :=
  let word (w : UInt32) := Bytes.ofNatLE 4 w.toNat
  ⟨word s.a ++ word s.b ++ word s.c ++ word s.d ++ word s.e, by simp [word]⟩

def hash (message : Bytes) : FixedBytes 20 :=
  ((Bytes.chunks 64 (pad message)).foldl compress .initial).toBytes

end Utxo.Ripemd160
