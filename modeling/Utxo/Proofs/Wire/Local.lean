import Utxo.Proofs.Wire.Reading
import Utxo.Wire.Skip

/-!
# Readers that see only what they take

Where such a reader succeeds, it would have found the same with any other bytes behind those that it
takes. All readers of the parts of a message are of that kind.
-/

namespace Utxo

namespace WireReader

variable {ε ε' α β σ : Type} {b rest : Bytes}

def Local (reader : WireReader ε α) : Prop :=
  ∀ ⦃b a rest⦄, reader.runFrom b = (.ok a, rest) →
    ∃ taken, b = taken ++ rest ∧ Reads reader taken a

theorem local_pure (a : α) : Local (pure a : WireReader ε α) := by
  intro b a' rest h
  cases h
  exact ⟨[], rfl, reads_pure a⟩

theorem local_throw (e : ε) : Local (throw e : WireReader ε α) := by
  intro b a rest h
  cases h

theorem local_done (outcome : Except ε α) : Local (Stateful.done outcome : WireReader ε α) := by
  intro b a rest h
  cases h
  exact ⟨[], rfl, reads_done a⟩

theorem Local.bind {x : WireReader ε α} {f : α → WireReader ε β} (hx : Local x)
    (hf : ∀ a, Local (f a)) : Local (x >>= f) := by
  intro b c rest h
  obtain ⟨a, u, hxa, hfa⟩ := Stateful.runFrom_bind_ok.mp h
  obtain ⟨first, rfl, hfirst⟩ := hx hxa
  obtain ⟨second, rfl, hsecond⟩ := hf a hfa
  exact ⟨first ++ second, (List.append_assoc _ _ _).symm, hfirst.bind hsecond⟩

theorem Local.blame {x : WireReader ε α} (hx : Local x) (word : ε → ε') :
    Local (Stateful.blame word x) := by
  intro b a rest h
  obtain ⟨taken, hb, hreads⟩ := hx (Stateful.runFrom_blame_ok.mp h)
  exact ⟨taken, hb, hreads.blame word⟩

theorem local_take (n : Nat) : Local (take n) := by
  intro b a rest h
  unfold take at h
  simp only [Stateful.runFrom_bind, Stateful.runFrom_get] at h
  split at h
  · rename_i hlength
    simp only [Stateful.runFrom_bind, Stateful.runFrom_set, Stateful.runFrom_pure, Prod.mk.injEq,
      Except.ok.injEq] at h
    obtain ⟨rfl, rfl⟩ := h
    exact ⟨b.take n, (List.take_append_drop n b).symm, reads_take hlength⟩
  · simp at h

/-- What a message gives is the start from which more bytes behind it are read. -/
theorem foldToEnd_of_ok {step : σ → WireReader ε σ} {takes : ∀ s, TakesAtLeast 1 (step s)}
    {s s' : σ} (hlocal : ∀ s, Local (step s)) (h : foldToEnd step takes s b = .ok s')
    (more : Bytes) : foldToEnd step takes s (b ++ more) = foldToEnd step takes s' more := by
  fun_induction foldToEnd step takes s b with
  | case1 s b hempty =>
    cases h
    rw [List.isEmpty_iff.mp hempty, List.nil_append]
  | case2 s b hempty next rest hread ih =>
    obtain ⟨taken, rfl, hreads⟩ := hlocal s hread
    rw [List.append_assoc, foldToEnd_append hreads]
    exact ih h
  | case3 => cases h

end WireReader

open WireReader

/-! ## Numbers and keys -/

theorem Varint.split?_append {width n : Nat} {b rest : Bytes}
    (h : split? width b = some (n, rest)) :
    ∃ taken, b = taken ++ rest ∧ ∀ more, split? width (taken ++ more) = some (n, more) := by
  fun_induction split? width b generalizing n with
  | case1 => cases h
  | case2 => cases h
  | case3 width first rest hlast =>
    cases h
    refine ⟨[first], rfl, fun more => ?_⟩
    rw [List.singleton_append, split?, if_pos hlast]
  | case4 width first rest' hmore ih =>
    obtain ⟨⟨high, r⟩, hhigh, e⟩ := Option.map_eq_some_iff.mp h
    cases e
    obtain ⟨taken, rfl, htaken⟩ := ih hhigh
    refine ⟨first :: taken, rfl, fun more => ?_⟩
    rw [List.cons_append, split?, if_neg hmore, htaken]
    rfl

theorem Varint.local_read : Local read := by
  intro b a rest h
  unfold read at h
  simp only [Stateful.runFrom_bind, Stateful.runFrom_get] at h
  split at h
  · simp at h
  rename_i n rest' hsplit
  split at h
  · rename_i hlt
    simp only [Stateful.runFrom_bind, Stateful.runFrom_set, Stateful.runFrom_pure, Prod.mk.injEq,
      Except.ok.injEq] at h
    obtain ⟨rfl, rfl⟩ := h
    obtain ⟨taken, rfl, htaken⟩ := split?_append hsplit
    refine ⟨taken, rfl, fun more => ?_⟩
    unfold read
    simp only [Stateful.runFrom_bind, Stateful.runFrom_get, htaken, if_pos hlt,
      Stateful.runFrom_set, Stateful.runFrom_pure]
  · simp at h

theorem WireKey.local_read : Local read := Varint.local_read.bind fun _ => local_done _

/-! ## Fields that nobody asks for -/

namespace Wire

theorem local_skipBytes (n : Nat) : Local (skipBytes n) :=
  ((local_take n).blame _).bind fun _ => local_pure _

theorem local_skipValue (t : WireType) : Local (skipValue t) := by
  cases t with
  | varint => exact Varint.local_read.bind fun _ => local_pure _
  | fixed64 => exact local_skipBytes 8
  | delimited => exact Varint.local_read.bind fun _ => local_skipBytes _
  | groupStart => exact local_pure _
  | groupEnd => exact local_pure _
  | fixed32 => exact local_skipBytes 4

theorem local_skipAmong (opened : List Nat) (key : WireKey) : Local (skipAmong opened key) := by
  unfold skipAmong
  split
  · split
    · exact local_throw _
    · split
      · exact local_pure _
      · exact local_throw _
  · split
    · exact local_throw _
    · exact (local_skipValue _).bind fun _ => local_pure _

/-- Passes over the next field among open groups, or over the end of one. -/
def skipNext (opened : List Nat) : WireReader WireFault (List Nat) :=
  WireKey.read >>= skipAmong opened

theorem local_skipNext (opened : List Nat) : Local (skipNext opened) :=
  WireKey.local_read.bind fun _ => local_skipAmong _ _

theorem closeGroups_nil (b : Bytes) : closeGroups [] b = .ok b := by
  rw [closeGroups]
  rfl

theorem closeGroups_of_ne_nil {opened : List Nat} {b : Bytes} (hopened : opened ≠ []) :
    closeGroups opened b =
      match (skipNext opened).runFrom b with
      | (.ok opened', rest) => closeGroups opened' rest
      | (.error e, _) => .error e := by
  rw [closeGroups, if_neg (by simpa using hopened)]
  unfold skipNext
  split <;> rename_i heq <;> rw [heq]

theorem closeGroups_append {opened opened' : List Nat} {b : Bytes} (hopened : opened ≠ [])
    (h : Reads (skipNext opened) b opened') (rest : Bytes) :
    closeGroups opened (b ++ rest) = closeGroups opened' rest := by
  rw [closeGroups_of_ne_nil hopened, h rest]

theorem closeGroups_ok {opened : List Nat} {b rest : Bytes}
    (h : closeGroups opened b = .ok rest) :
    ∃ taken, b = taken ++ rest ∧ ∀ more, closeGroups opened (taken ++ more) = .ok more := by
  fun_induction closeGroups opened b with
  | case1 opened b hempty =>
    cases h
    rw [List.isEmpty_iff.mp hempty]
    exact ⟨[], rfl, closeGroups_nil⟩
  | case2 opened b hopened opened' rest' hread ih =>
    have hopened : opened ≠ [] := by simpa using hopened
    obtain ⟨first, rfl, hfirst⟩ := local_skipNext opened hread
    obtain ⟨taken, rfl, htaken⟩ := ih h
    refine ⟨first ++ taken, (List.append_assoc _ _ _).symm, fun more => ?_⟩
    rw [List.append_assoc, closeGroups_append hopened hfirst, htaken]
  | case3 => cases h

theorem reads_skip {key : WireKey} {b rest : Bytes} {opened : List Nat}
    (hvalue : Reads (skipAmong [] key) b opened)
    (hgroups : ∀ more, closeGroups opened (rest ++ more) = .ok more) :
    Reads (skip key) (b ++ rest) () := by
  refine hvalue.bind fun more => ?_
  simp only [Stateful.runFrom_bind, Stateful.runFrom_get, Stateful.runFrom_done, hgroups,
    Stateful.runFrom_set]

theorem local_skip (key : WireKey) : Local (skip key) := by
  intro b a rest hrun
  obtain ⟨opened, u, hvalue, hrun⟩ := Stateful.runFrom_bind_ok.mp hrun
  obtain ⟨_, _, hget, hrun⟩ := Stateful.runFrom_bind_ok.mp hrun
  obtain ⟨behind, _, hdone, hset⟩ := Stateful.runFrom_bind_ok.mp hrun
  cases hget
  cases hset
  obtain ⟨hclose, -⟩ := Prod.mk.inj hdone
  obtain ⟨first, rfl, hfirst⟩ := local_skipAmong [] key hvalue
  obtain ⟨taken, rfl, htaken⟩ := closeGroups_ok hclose
  exact ⟨first ++ taken, (List.append_assoc _ _ _).symm, reads_skip hfirst htaken⟩

end Wire

end Utxo
