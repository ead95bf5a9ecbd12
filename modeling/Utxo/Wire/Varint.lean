import Utxo.Wire.Basic
import Utxo.Wire.Reader

/-!
# Numbers of seven bits a byte

Every byte holds seven bits of the number, lowest ones first, and its top bit says that another
byte follows. Writing takes the shortest form; reading takes any of up to ten bytes.
-/

namespace Utxo

namespace Varint

def encode (n : Nat) : Bytes :=
  if n < 128 then [UInt8.ofNat n] else UInt8.ofNat (n % 128 + 128) :: encode (n / 128)
termination_by n

/-- The number at the front, if it ends within `width` bytes, and what follows it. -/
def split? : (width : Nat) → Bytes → Option (Nat × Bytes)
  | 0, _ => none
  | _, [] => none
  | width + 1, b :: rest =>
    if b < 0x80 then some (b.toNat, rest)
    else (split? width rest).map fun (high, rest) => (b.toNat - 128 + 128 * high, rest)

def maxWidth : Nat := 10

def read : WireReader WireFault UInt64 := do
  match split? maxWidth (← get) with
  | none => throw .badNumber
  | some (n, rest) =>
    if n < UInt64.size then
      set rest
      return UInt64.ofNat n
    else throw .badNumber

theorem length_split? {width n : Nat} {b rest : Bytes} (h : split? width b = some (n, rest)) :
    rest.length < b.length := by
  fun_induction split? width b generalizing n with
  | case1 => simp at h
  | case2 => simp at h
  | case3 => cases h; simp
  | case4 width b rest' _ ih =>
    obtain ⟨⟨high, r⟩, hr, e⟩ := Option.map_eq_some_iff.mp h
    cases e
    have := ih hr
    simp only [List.length_cons]
    omega

theorem takesAtLeast_read : WireReader.TakesAtLeast 1 read := by
  intro b a rest h
  unfold read at h
  simp only [Stateful.runFrom_bind, Stateful.runFrom_get] at h
  split at h
  · simp at h
  · rename_i n r hs
    split at h
    · simp only [Stateful.runFrom_bind, Stateful.runFrom_set, Stateful.runFrom_pure,
        Prod.mk.injEq] at h
      rw [← h.2]
      exact length_split? hs
    · simp at h

end Varint

end Utxo
