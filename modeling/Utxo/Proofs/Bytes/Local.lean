import Utxo.Proofs.Bytes.Reading

/-!
# Readers that see only what they take

What such a reader finds is settled by the bytes that it takes, wherever they stand and whatever
comes behind. It fails only for want of bytes: with some more of them it would have found something.
-/

namespace Utxo.Reader

variable {ε α β : Type} {reader : Reader ε α} {c c' : Cursor} {b b' : Bytes} {a : α}

/-- Wherever the bytes `b` stand, the reader takes them for `a`. -/
def Finds (reader : Reader ε α) (b : Bytes) (a : α) : Prop :=
  ∀ ⦃c c'⦄, Takes c b c' → reader.runFrom c = (.ok a, c')

structure Local (reader : Reader ε α) : Prop where
  ok : ∀ ⦃c a c'⦄, reader.runFrom c = (.ok a, c') → ∃ b, Takes c b c' ∧ reader.Finds b a
  completes : ∀ ⦃c e c'⦄, reader.runFrom c = (.error e, c') →
    ∃ more a, reader.Finds (c.rest ++ more) a
  error : ∀ ⦃c e c'⦄, reader.runFrom c = (.error e, c') →
    ∀ d, d.rest = c.rest → ∃ d', reader.runFrom d = (.error e, d')

theorem Takes.bytes_eq (h : Takes c b c') (h' : Takes c b' c') : b = b' :=
  List.append_cancel_right (h.1.symm.trans h'.1)

theorem Finds.bind {f : α → Reader ε β} {r : β} (hx : reader.Finds b a) (hf : (f a).Finds b' r) :
    Finds (reader >>= f) (b ++ b') r := by
  intro c c' h
  obtain ⟨u, hb, hb'⟩ := Takes.split h
  rw [Stateful.runFrom_bind_of_ok (hx hb)]
  exact hf hb'

/-! ## Building them -/

theorem local_pure (a : α) : Local (pure a : Reader ε α) := by
  refine ⟨?_, ?_, ?_⟩
  · intro c a' c' h
    cases h
    refine ⟨[], takes_nil_iff.mpr rfl, ?_⟩
    intro d d' hd
    rw [takes_nil_iff.mp hd, Stateful.runFrom_pure]
  · intro c e c' h
    cases h
  · intro c e c' h
    cases h

/-- Where no byte is left, some bytes would do. -/
theorem Local.exists_finds (h : Local reader) : ∃ more a, reader.Finds more a := by
  rcases hrun : reader.runFrom (.start []) with ⟨e | a, c⟩
  · exact h.completes hrun
  · obtain ⟨b, -, hb⟩ := h.ok hrun
    exact ⟨b, a, hb⟩

theorem Local.bind {f : α → Reader ε β} (hx : Local reader) (hf : ∀ a, Local (f a)) :
    Local (reader >>= f) := by
  refine ⟨?_, ?_, ?_⟩
  · intro c r c' h
    obtain ⟨a, u, hxa, hfa⟩ := Stateful.runFrom_bind_ok.mp h
    obtain ⟨b, htakes, hb⟩ := hx.ok hxa
    obtain ⟨b', htakes', hb'⟩ := (hf a).ok hfa
    exact ⟨b ++ b', htakes.trans htakes', hb.bind hb'⟩
  · intro c e c' h
    rcases hrun : reader.runFrom c with ⟨e' | a, u⟩
    · -- The first part is completed, and then all that the second one needs.
      obtain ⟨more, a, hmore⟩ := hx.completes hrun
      obtain ⟨more', r, hmore'⟩ := (hf a).exists_finds
      refine ⟨more ++ more', r, ?_⟩
      rw [← List.append_assoc]
      exact hmore.bind hmore'
    · rw [Stateful.runFrom_bind_of_ok hrun] at h
      obtain ⟨b, htakes, hb⟩ := hx.ok hrun
      obtain ⟨more, r, hmore⟩ := (hf a).completes h
      refine ⟨more, r, ?_⟩
      rw [htakes.1, List.append_assoc]
      exact hb.bind hmore
  · intro c e c' h d hd
    rcases hrun : reader.runFrom c with ⟨e' | a, u⟩
    · rw [Stateful.runFrom_bind_of_error hrun] at h
      cases h
      obtain ⟨d', hd'⟩ := hx.error hrun d hd
      exact ⟨d', Stateful.runFrom_bind_of_error hd'⟩
    · rw [Stateful.runFrom_bind_of_ok hrun] at h
      obtain ⟨b, htakes, hb⟩ := hx.ok hrun
      have hd' : Takes d b ⟨d.position + b.length, u.rest⟩ := ⟨by rw [hd, htakes.1], rfl⟩
      rw [Stateful.runFrom_bind_of_ok (hb hd')]
      exact (hf a).error h _ rfl

/-! ## Bytes and numbers -/

theorem fixed_of_short {n : Nat} (h : c.rest.length < n) :
    (fixed n).runFrom c = (.error ⟨n, c.rest.length⟩, c) := by
  unfold fixed
  rw [Stateful.runFrom_bind_of_ok (Stateful.runFrom_get c), dif_neg (by simp; omega)]
  rfl

theorem local_fixed (n : Nat) : Local (fixed n) := by
  have hfinds : ∀ b : FixedBytes n, (fixed n).Finds b.val b := by
    intro b c c' h
    exact fixed_of_takes b.property h
  have hshort : ∀ ⦃c e c'⦄, (fixed n).runFrom c = (.error e, c') → c.rest.length < n := by
    intro c e c' h
    rcases Nat.lt_or_ge c.rest.length n with hlt | hge
    · exact hlt
    · have hlength : (c.rest.take n).length = n := List.length_take_of_le hge
      have htakes : Takes c (c.rest.take n) ⟨c.position + n, c.rest.drop n⟩ :=
        ⟨(List.take_append_drop n c.rest).symm, by rw [hlength]⟩
      rw [fixed_of_takes hlength htakes] at h
      simp at h
  refine ⟨?_, ?_, ?_⟩
  · intro c a c' h
    exact ⟨a.val, fixed_ok h, hfinds a⟩
  · intro c e c' h
    have hlt := hshort h
    exact ⟨List.replicate (n - c.rest.length) 0, ⟨_, by simp; omega⟩, hfinds ⟨_, _⟩⟩
  · intro c e c' h d hd
    have hlt := hshort h
    rw [fixed_of_short hlt] at h
    cases h
    exact ⟨d, by rw [fixed_of_short (by rwa [hd]), hd]⟩

theorem local_bytes (n : Nat) : Local (bytes n) := (local_fixed n).bind fun _ => local_pure _

theorem local_byte : Local byte := (local_bytes 1).bind fun _ => local_pure _

theorem local_u16BE : Local u16BE := (local_bytes 2).bind fun _ => local_pure _

theorem local_u32BE : Local u32BE := (local_bytes 4).bind fun _ => local_pure _

/-! ## Single reads -/

/-- A read of `n` bytes at once. -/
structure Single {α : Type} (reader : Reader Truncated α) (n : Nat) : Prop where
  finds : ∀ b : Bytes, b.length = n → ∃ a, reader.Finds b a
  short : ∀ c : Cursor, c.rest.length < n →
    reader.runFrom c = (.error ⟨n, c.rest.length⟩, c)

section Single

variable {reader : Reader Truncated α} {n : Nat}

theorem single_fixed (n : Nat) : Single (fixed n) n :=
  ⟨fun b hb => ⟨⟨b, hb⟩, fun _ _ h => fixed_of_takes hb h⟩, fun _ h => fixed_of_short h⟩

theorem Single.map (h : Single reader n) (f : α → β) :
    Single (reader >>= fun a => pure (f a)) n := by
  refine ⟨?_, ?_⟩
  · intro b hb
    obtain ⟨a, ha⟩ := h.finds b hb
    refine ⟨f a, ?_⟩
    intro c c' htakes
    rw [Stateful.runFrom_bind_of_ok (ha htakes), Stateful.runFrom_pure]
  · intro c hshort
    rw [Stateful.runFrom_bind_of_error (h.short c hshort)]

theorem single_bytes (n : Nat) : Single (bytes n) n := (single_fixed n).map _

theorem single_byte : Single byte 1 := (single_bytes 1).map _

theorem single_u16LE : Single u16LE 2 := (single_bytes 2).map _

theorem single_u16BE : Single u16BE 2 := (single_bytes 2).map _

theorem single_u32LE : Single u32LE 4 := (single_bytes 4).map _

theorem single_u32BE : Single u32BE 4 := (single_bytes 4).map _

theorem single_u64LE : Single u64LE 8 := (single_bytes 8).map _

end Single

end Utxo.Reader
