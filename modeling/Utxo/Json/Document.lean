import Utxo.Json

/-!
# Reading JSON documents

The grammar of RFC 8259, with nothing in front of the value or behind it but blanks.
-/

namespace Utxo.Json

def isBlank (c : Char) : Bool := c == ' ' || c == '\t' || c == '\n' || c == '\r'

def skipBlanks (cs : List Char) : List Char := cs.dropWhile isBlank

/-! ## Strings -/

def hexValue? (c : Char) : Option Nat :=
  if c.isDigit then some (c.toNat - '0'.toNat)
  else if 'a' ≤ c ∧ c ≤ 'f' then some (c.toNat - 'a'.toNat + 10)
  else if 'A' ≤ c ∧ c ≤ 'F' then some (c.toNat - 'A'.toNat + 10)
  else none

/-- The UTF-16 unit that four digits stand for. -/
def unit? (a b c d : Char) : Option Nat := do
  return 4096 * (← hexValue? a) + 256 * (← hexValue? b) + 16 * (← hexValue? c) + (← hexValue? d)

def isSurrogate (unit : Nat) : Bool := 0xd800 ≤ unit && unit ≤ 0xdfff

/-- The unit and, if it opens a surrogate pair that the text carries on, the text behind the pair
and the character. -/
def pair? (unit : Nat) : List Char → Option (Char × List Char)
  | '\\' :: 'u' :: a :: b :: c :: d :: rest => do
    let low ← unit? a b c d
    if unit < 0xdc00 ∧ 0xdc00 ≤ low ∧ low ≤ 0xdfff then
      return (Char.ofNat (0x10000 + (unit - 0xd800) * 0x400 + (low - 0xdc00)), rest)
    else none
  | _ => none

def simpleEscape? : Char → Option Char
  | '"' => some '"'
  | '\\' => some '\\'
  | '/' => some '/'
  | 'b' => some '\x08'
  | 'f' => some '\x0c'
  | 'n' => some '\n'
  | 'r' => some '\r'
  | 't' => some '\t'
  | _ => none

theorem length_pair? {unit : Nat} {cs rest : List Char} {c : Char}
    (h : pair? unit cs = some (c, rest)) : rest.length < cs.length := by
  unfold pair? at h
  split at h
  · simp only [Option.bind_eq_bind, Option.bind_eq_some_iff] at h
    obtain ⟨low, -, h⟩ := h
    split at h
    · simp only [pure, Option.some.injEq, Prod.mk.injEq] at h
      simp [← h.2]; omega
    · simp at h
  · simp at h

/-- The rest of a string behind its opening quote: the characters so far, last one first, or
`none` if they make no text. -/
def scanString (seen : Option (List Char)) (cs : List Char) :
    Option (Option String × List Char) :=
  match cs with
  | [] => none
  | '"' :: rest => some (seen.map (String.ofList ·.reverse), rest)
  | '\\' :: 'u' :: a :: b :: c :: d :: rest =>
    match unit? a b c d with
    | none => none
    | some unit =>
      if isSurrogate unit then
        match _h : pair? unit rest with
        | some (ch, rest) => scanString (seen.map (ch :: ·)) rest
        | none => scanString none rest
      else scanString (seen.map (Char.ofNat unit :: ·)) rest
  | '\\' :: e :: rest =>
    match simpleEscape? e with
    | none => none
    | some ch => scanString (seen.map (ch :: ·)) rest
  | ch :: rest => if ch.toNat < 0x20 then none else scanString (seen.map (ch :: ·)) rest
termination_by cs.length
decreasing_by
  · have := length_pair? _h
    simp_all; omega
  all_goals simp_all; try omega

/-! ## Numbers -/

/-- Some digits and what follows them. -/
def digits? (cs : List Char) : Option (List Char × List Char) :=
  match cs.takeWhile Char.isDigit with
  | [] => none
  | ds => some (ds, cs.dropWhile Char.isDigit)

/-- Digits with no needless zero in front. -/
def wholePart? : List Char → Option (List Char × List Char)
  | '0' :: rest => some (['0'], rest)
  | cs => digits? cs

/-- A part of a number that may be missing: what it is written as, and what follows it. -/
def fractionPart? : List Char → Option (List Char × List Char)
  | '.' :: rest => do
    let (ds, rest) ← digits? rest
    return ('.' :: ds, rest)
  | cs => some ([], cs)

def exponentPart? : List Char → Option (List Char × List Char)
  | e :: rest =>
    if e = 'e' ∨ e = 'E' then
      match rest with
      | sign :: rest' =>
        if sign = '+' ∨ sign = '-' then do
          let (ds, rest) ← digits? rest'
          return (e :: sign :: ds, rest)
        else do
          let (ds, rest) ← digits? rest
          return (e :: ds, rest)
      | [] => none
    else some ([], e :: rest)
  | [] => some ([], [])

def natOfDigits (ds : List Char) : Nat :=
  ds.foldl (fun n d => 10 * n + (d.toNat - '0'.toNat)) 0

/-- A number. Minus zero counts as no integer. -/
def number? (cs : List Char) : Option (Json × List Char) := do
  let (negative, cs) := match cs with
    | '-' :: rest => (true, rest)
    | _ => (false, cs)
  let (whole, cs) ← wholePart? cs
  let (fraction, cs) ← fractionPart? cs
  let (exponent, cs) ← exponentPart? cs
  let sign := if negative then ['-'] else []
  let n := natOfDigits whole
  if fraction.isEmpty ∧ exponent.isEmpty ∧ ¬(negative ∧ n = 0) then
    return (.integer (if negative then -n else n), cs)
  else return (.decimal (String.ofList (sign ++ whole ++ fraction ++ exponent)), cs)

/-! ## Values -/

mutual

/-- The value at the front and what follows it. Each step takes a character, or uses up `steps`
without one at most once in a row, so twice the length of the text is enough of them. -/
def value? : (steps : Nat) → List Char → Option (Json × List Char)
  | 0, _ => none
  | steps + 1, cs =>
    match skipBlanks cs with
    | 'n' :: 'u' :: 'l' :: 'l' :: rest => some (.null, rest)
    | 't' :: 'r' :: 'u' :: 'e' :: rest => some (.bool true, rest)
    | 'f' :: 'a' :: 'l' :: 's' :: 'e' :: rest => some (.bool false, rest)
    | '"' :: rest => (scanString (some []) rest).map fun (s, rest) => (.string s, rest)
    | '[' :: rest =>
      match skipBlanks rest with
      | ']' :: rest => some (.array [], rest)
      | _ => items? steps [] rest
    | '{' :: rest =>
      match skipBlanks rest with
      | '}' :: rest => some (.object [], rest)
      | _ => members? steps [] rest
    | cs => number? cs

/-- The items of an array behind those already seen, which are kept last one first. -/
def items? : (steps : Nat) → (seen : List Json) → List Char → Option (Json × List Char)
  | 0, _, _ => none
  | steps + 1, seen, cs => do
    let (item, cs) ← value? steps cs
    match skipBlanks cs with
    | ',' :: rest => items? steps (item :: seen) rest
    | ']' :: rest => return (.array (item :: seen).reverse, rest)
    | _ => none

def members? : (steps : Nat) → (seen : List (Option String × Json)) → List Char →
    Option (Json × List Char)
  | 0, _, _ => none
  | steps + 1, seen, cs =>
    match skipBlanks cs with
    | '"' :: rest => do
      let (name, cs) ← scanString (some []) rest
      match skipBlanks cs with
      | ':' :: rest =>
        let (value, cs) ← value? steps rest
        match skipBlanks cs with
        | ',' :: rest => members? steps ((name, value) :: seen) rest
        | '}' :: rest => return (.object ((name, value) :: seen).reverse, rest)
        | _ => none
      | _ => none
    | _ => none

end

/-- The value that a document holds. -/
def parse? (document : String) : Option Json := do
  let cs := document.toList
  let (value, rest) ← value? (2 * cs.length + 2) cs
  if (skipBlanks rest).isEmpty then return value else none

end Utxo.Json
