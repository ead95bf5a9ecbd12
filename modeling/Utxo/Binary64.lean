/-!
# Binary floating point

Numbers of 64 bits as their bits, so that two of them are equal when nothing can tell them apart.
A number that has no exact form becomes its nearest neighbour, and of two equally near ones the
even one.
-/

namespace Utxo

/-- The bits of an IEEE 754 number: sign, eleven bits of exponent, 52 of fraction. -/
structure Binary64 where
  bits : UInt64
  deriving DecidableEq, Repr, Inhabited

namespace Binary64

def isFinite (x : Binary64) : Bool := (x.bits >>> 52) &&& 0x7ff != 0x7ff

def isNaN (x : Binary64) : Bool := !x.isFinite && x.bits &&& 0xfffffffffffff != 0

def ofFields (sign exponent fraction : Nat) : Binary64 :=
  ⟨UInt64.ofNat ((sign <<< 63) + (exponent <<< 52) + fraction)⟩

/-- The same number, given as the 32 bits of the shorter form. Nothing is lost, except that every
NaN comes out quiet. -/
def ofBinary32 (b : UInt32) : Binary64 :=
  let sign := b.toNat >>> 31
  let exponent := (b.toNat >>> 23) % 256
  let fraction := b.toNat % (1 <<< 23)
  if exponent = 255 then
    if fraction = 0 then ofFields sign 2047 0
    else ofFields sign 2047 ((1 <<< 51) ||| (fraction <<< 29))
  else if exponent = 0 then
    if fraction = 0 then ofFields sign 0 0
    else
      let top := fraction.log2
      ofFields sign (top + 874) ((fraction - (1 <<< top)) <<< (52 - top))
  else ofFields sign (exponent + 896) (fraction <<< 29)

/-- The whole number nearest to `n / d`; a half goes to the even neighbour. -/
def nearest (n d : Nat) : Nat :=
  let q := n / d
  let r := n % d
  if 2 * r < d then q else if d < 2 * r then q + 1 else q + q % 2

/-- The nearest number with at most 53 significant bits. -/
def significant (n : Nat) : Nat :=
  let unit := 1 <<< (n.log2 - 52)
  nearest n unit * unit

/-- The number nearest to `n / d`, for positive `d`. -/
def ofRatio (n d : Nat) : Binary64 :=
  if n = 0 then ⟨0⟩
  else
    let guess : Int := n.log2 - d.log2
    let top := if d <<< guess.toNat ≤ n <<< (-guess).toNat then guess else guess - 1
    let unit := max (top - 52) (-1074)
    let m := nearest (n <<< (-unit).toNat) (d <<< unit.toNat)
    let bits := ((unit + 1074).toNat <<< 52) + m
    if 2047 <<< 52 ≤ bits then ofFields 0 2047 0 else ⟨UInt64.ofNat bits⟩

/-- The quotient of two whole numbers, each taken to 53 significant bits first. -/
def quotient (n d : Nat) : Binary64 := ofRatio (significant n) (significant d)

end Binary64

end Utxo
