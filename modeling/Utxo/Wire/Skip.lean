import Utxo.Wire.Key

/-!
# Fields that nobody asks for

A reader that does not know a field's number passes over the field. Groups may stand in groups; the
numbers of those that are open are kept innermost first.
-/

namespace Utxo.Wire

def maxOpenGroups : Nat := 100

def skipBytes (n : Nat) : WireReader WireFault Unit := do
  let _ ← (WireReader.take n).blame fun _ => .underflow

/-- Passes over a value. The keys of groups have none. -/
def skipValue : WireType → WireReader WireFault Unit
  | .varint => do
    let _ ← Varint.read
  | .fixed64 => skipBytes 8
  | .fixed32 => skipBytes 4
  | .delimited => do
    let n ← Varint.read
    skipBytes n.toNat
  | .groupStart | .groupEnd => return ()

/-- Passes over what stands behind a key among open groups. The result is the groups that are open
then. -/
def skipAmong (opened : List Nat) (key : WireKey) : WireReader WireFault (List Nat) :=
  if key.wireType = .groupEnd then
    match opened with
    | [] => throw .strayGroupEnd
    | innermost :: outer =>
      if innermost = key.number then return outer else throw .strayGroupEnd
  else if maxOpenGroups ≤ opened.length then throw .tooDeep
  else do
    skipValue key.wireType
    return if key.wireType = .groupStart then key.number :: opened else opened

theorem takesAtLeast_skipBytes (n : Nat) : WireReader.TakesAtLeast 0 (skipBytes n) :=
  (((WireReader.takesAtLeast_take n).blame _).mono (Nat.zero_le n)).then
    fun _ => WireReader.takesAtLeast_pure _

theorem takesAtLeast_skipValue (t : WireType) : WireReader.TakesAtLeast 0 (skipValue t) := by
  have hvarint := Varint.takesAtLeast_read.mono (Nat.zero_le 1)
  cases t
  · exact hvarint.then fun _ => WireReader.takesAtLeast_pure _
  · exact takesAtLeast_skipBytes 8
  · exact hvarint.then fun _ => takesAtLeast_skipBytes _
  · exact WireReader.takesAtLeast_pure _
  · exact WireReader.takesAtLeast_pure _
  · exact takesAtLeast_skipBytes 4

theorem takesAtLeast_skipAmong (opened : List Nat) (key : WireKey) :
    WireReader.TakesAtLeast 0 (skipAmong opened key) := by
  unfold skipAmong
  split
  · split
    · exact WireReader.takesAtLeast_throw _ _
    · split
      · exact WireReader.takesAtLeast_pure _
      · exact WireReader.takesAtLeast_throw _ _
  · split
    · exact WireReader.takesAtLeast_throw _ _
    · exact (takesAtLeast_skipValue _).then fun _ => WireReader.takesAtLeast_pure _

/-- Passes over fields until no group is open. -/
def closeGroups (opened : List Nat) (b : Bytes) : Except WireFault Bytes :=
  if opened.isEmpty then .ok b
  else
    match _h : (WireKey.read >>= skipAmong opened).runFrom b with
    | (.ok opened', rest) => closeGroups opened' rest
    | (.error e, _) => .error e
termination_by b.length
decreasing_by
  exact (WireKey.takesAtLeast_read.then fun _ => takesAtLeast_skipAmong _ _) _h

/-- Passes over the value behind a key, with all that a group holds. -/
def skip (key : WireKey) : WireReader WireFault Unit := do
  let opened ← skipAmong [] key
  let rest ← Stateful.done (closeGroups opened (← get))
  set rest

theorem length_closeGroups {opened : List Nat} {b rest : Bytes}
    (h : closeGroups opened b = .ok rest) : rest.length ≤ b.length := by
  fun_induction closeGroups opened b with
  | case1 => cases h; exact Nat.le_refl _
  | case2 opened b _ opened' rest' hread ih =>
    have := ih h
    have := (WireKey.takesAtLeast_read.then fun _ => takesAtLeast_skipAmong _ _) hread
    omega
  | case3 => simp at h

theorem takesAtLeast_skip (key : WireKey) : WireReader.TakesAtLeast 0 (skip key) := by
  refine (takesAtLeast_skipAmong [] key).then fun opened => ?_
  intro b a rest h
  simp only [Stateful.runFrom_bind, Stateful.runFrom_get, Stateful.runFrom_done] at h
  split at h
  · rename_i r s heq
    simp only [Prod.mk.injEq] at heq
    simp only [Stateful.runFrom_set, Prod.mk.injEq] at h
    rw [← h.2]
    exact length_closeGroups heq.1
  · simp at h

end Utxo.Wire
