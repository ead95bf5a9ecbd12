/-!
# The curve y² = x³ + 7

Coordinates live in the field of `fieldOrder` elements, and the points form a group of `groupOrder`
elements.
-/

namespace Utxo.Secp256k1

def fieldOrder : Nat := 0xfffffffffffffffffffffffffffffffffffffffffffffffffffffffefffffc2f

def groupOrder : Nat := 0xfffffffffffffffffffffffffffffffebaaedce6af48a03bbfd25e8cd0364141

instance : @NeZero Nat Zero.ofOfNat0 fieldOrder := ⟨by decide⟩

instance : @NeZero Nat Zero.ofOfNat0 groupOrder := ⟨by decide⟩

abbrev Coordinate := Fin fieldOrder

/-- A multiple of the generator, by its factor. -/
abbrev Scalar := Fin groupOrder

/-! ## Powers -/

/-- `b` to the power `e`, for exponents of up to 256 bits. -/
def power {m : Nat} (b : Fin m) (e : Nat) : Fin m :=
  let one : Fin m := ⟨1 % m, Nat.mod_lt 1 b.pos⟩
  (List.range 256).foldr (fun i acc => if e.testBit i then acc * acc * b else acc * acc) one

/-- The inverse modulo a prime; zero for zero. -/
def inverse {m : Nat} (a : Fin m) : Fin m := power a (m - 2)

/-- A number whose square is `a`, if there is one. -/
def squareRoot? (a : Coordinate) : Option Coordinate :=
  let root := power a ((fieldOrder + 1) / 4)
  if root * root = a then some root else none

/-! ## Points -/

/-- The right side of the curve's equation. -/
def cubic (x : Coordinate) : Coordinate := x * x * x + 7

def isOnCurve (x y : Coordinate) : Bool := y * y == cubic x

/-- The point with the coordinates `x / z²` and `y / z³`, or infinity if `z` is zero. -/
structure Point where
  x : Coordinate
  y : Coordinate
  z : Coordinate

namespace Point

def infinity : Point := ⟨1, 1, 0⟩

def ofCoordinates (x y : Coordinate) : Point := ⟨x, y, 1⟩

/-- The coordinates; zeros for infinity, which has none. -/
def coordinates (q : Point) : Coordinate × Coordinate :=
  let w := inverse q.z
  (q.x * (w * w), q.y * (w * w * w))

def generator : Point := ofCoordinates
  (Fin.ofNat _ 0x79be667ef9dcbbac55a06295ce870b07029bfcdb2dce28d959f2815b16f81798)
  (Fin.ofNat _ 0x483ada7726a3c4655da4fbfc0e1108a8fd17b448a68554199c47d08ffb10d4b8)

def double (q : Point) : Point :=
  let yy := q.y * q.y
  let s := 4 * q.x * yy
  let m := 3 * q.x * q.x
  let x := m * m - 2 * s
  ⟨x, m * (s - x) - 8 * yy * yy, 2 * q.y * q.z⟩

def add (q r : Point) : Point :=
  if q.z = 0 then r
  else if r.z = 0 then q
  else
    let qzz := q.z * q.z
    let rzz := r.z * r.z
    let u := q.x * rzz
    let s := q.y * rzz * r.z
    let h := r.x * qzz - u
    let t := r.y * qzz * q.z - s
    if h = 0 then if t = 0 then double q else infinity
    else
      let hh := h * h
      let v := u * hh
      let x := t * t - h * hh - 2 * v
      ⟨x, t * (v - x) - s * (h * hh), h * q.z * r.z⟩

/-- `k` times a point, for factors of up to 256 bits. -/
def scale (k : Nat) (q : Point) : Point :=
  (List.range 256).foldr (fun i acc =>
    if k.testBit i then add (double acc) q else double acc) infinity

end Point

end Utxo.Secp256k1
