import Utxo.Text.Radix

/-!
# Codes of payloads

A code says which type a payload has. Codes are texts, but two numbers of equal value are one code
however they are written.
-/

namespace Utxo

structure PayloadCode where
  text : String
  deriving DecidableEq, Repr

namespace PayloadCode

def ofNat (n : Nat) : PayloadCode := ⟨toString n⟩

def ofInt (n : Int) : PayloadCode := ⟨toString n⟩

/-- The number of 64 bits that a code spells in decimal digits, which may stand behind one plus
sign. -/
def number? (code : PayloadCode) : Option Nat :=
  let digits : List Char :=
    match code.text.toList with
    | '+' :: rest => rest
    | all => all
  let n := Radix.value 10 (digits.reverse.map fun c => c.toNat - '0'.toNat)
  if digits ≠ [] ∧ digits.all Char.isDigit ∧ n < UInt64.size then some n else none

/-- Whether two codes select the same type. -/
def Matches (a b : PayloadCode) : Prop := a = b ∨ a.number?.isSome ∧ a.number? = b.number?

instance (a b : PayloadCode) : Decidable (a.Matches b) :=
  inferInstanceAs (Decidable (a = b ∨ a.number?.isSome ∧ a.number? = b.number?))

theorem Matches.refl (a : PayloadCode) : a.Matches a := .inl rfl

theorem Matches.symm {a b : PayloadCode} : a.Matches b → b.Matches a
  | .inl h => .inl h.symm
  | .inr ⟨h, e⟩ => .inr ⟨e ▸ h, e.symm⟩

theorem Matches.trans {a b c : PayloadCode} : a.Matches b → b.Matches c → a.Matches c
  | .inl h, h' => h ▸ h'
  | h, .inl h' => h' ▸ h
  | .inr ⟨h, e⟩, .inr ⟨_, e'⟩ => .inr ⟨h, e.trans e'⟩

/-! ## Actions -/

/-- Old codes of actions and the ones that took their place. -/
def replacements : List (PayloadCode × PayloadCode) :=
  [(⟨"A1"⟩, ⟨"I1"⟩), (⟨"A2"⟩, ⟨"I2"⟩), (⟨"A3"⟩, ⟨"I3"⟩)]

/-- The code of an action that is in use today. -/
def current (code : PayloadCode) : PayloadCode := (replacements.lookup code).getD code

end PayloadCode

end Utxo
