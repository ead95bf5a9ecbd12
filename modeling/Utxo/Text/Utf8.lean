import Utxo.Bytes

/-!
# Text in bytes

UTF-8 both ways. Reading never fails: bytes that belong to no character become U+FFFD, one for
each longest piece that begins some character.
-/

namespace Utxo.Utf8

def encode (text : String) : Bytes := text.toList.flatMap String.utf8EncodeChar

def replacement : Char := Char.ofNat 0xfffd

/-- How many bytes follow the first one of a character; zero for a byte that begins no character
of several bytes. -/
def followers (lead : UInt8) : Nat :=
  if lead < 0xc2 then 0 else if lead < 0xe0 then 1 else if lead < 0xf0 then 2
  else if lead < 0xf5 then 3 else 0

def isFollower (b : UInt8) : Bool := 0x80 ≤ b && b ≤ 0xbf

/-- Some first bytes narrow the second one, against overlong forms, surrogates and numbers above
U+10FFFF. -/
def isSecond (lead b : UInt8) : Bool :=
  if lead = 0xe0 then 0xa0 ≤ b && b ≤ 0xbf
  else if lead = 0xed then 0x80 ≤ b && b ≤ 0x9f
  else if lead = 0xf0 then 0x90 ≤ b && b ≤ 0xbf
  else if lead = 0xf4 then 0x80 ≤ b && b ≤ 0x8f
  else isFollower b

/-- The bytes of `rest` that carry on the character begun by `lead`. -/
def continuation (lead : UInt8) : (rest : Bytes) → Bytes
  | [] => []
  | second :: rest =>
    if isSecond lead second then second :: (rest.take (followers lead - 1)).takeWhile isFollower
    else []

/-- The number in the low bits of `lead` and in six bits of each byte behind it. -/
def codePoint (lead : UInt8) (more : Bytes) : Nat :=
  more.foldl (fun n b => n * 64 + (b.toNat - 0x80)) (lead.toNat % (64 >>> more.length))

/-- The character at the front and how many bytes it takes behind `lead`. -/
def next (lead : UInt8) (rest : Bytes) : Char × Nat :=
  if lead < 0x80 then (Char.ofNat lead.toNat, 0)
  else if followers lead = 0 then (replacement, 0)
  else
    let more := continuation lead rest
    if more.length = followers lead then (Char.ofNat (codePoint lead more), more.length)
    else (replacement, more.length)

def decodeChars : Bytes → List Char
  | [] => []
  | lead :: rest =>
    let (c, taken) := next lead rest
    c :: decodeChars (rest.drop taken)
termination_by b => b.length
decreasing_by simp only [List.length_drop, List.length_cons]; omega

def decode (b : Bytes) : String := String.ofList (decodeChars b)

end Utxo.Utf8
