import Utxo.Wire.Key

/-!
# Reading what was written

What is read from the front of a message depends on no byte behind it, so readers of its parts can
be put together just as the parts are.
-/

namespace Utxo

namespace WireReader

variable {ε ε' α β σ : Type} {b b' rest : Bytes} {a : α}

/-- The reader takes just these bytes and makes `a` of them. -/
def Reads (reader : WireReader ε α) (b : Bytes) (a : α) : Prop :=
  ∀ rest, reader.runFrom (b ++ rest) = (.ok a, rest)

theorem reads_pure (a : α) : Reads (pure a : WireReader ε α) [] a := fun _ => rfl

theorem reads_done (a : α) : Reads (Stateful.done (.ok a) : WireReader ε α) [] a := fun _ => rfl

theorem Reads.bind {x : WireReader ε α} {f : α → WireReader ε β} {c : β} (hx : Reads x b a)
    (hf : Reads (f a) b' c) : Reads (x >>= f) (b ++ b') c := by
  intro rest
  rw [List.append_assoc, Stateful.runFrom_bind_of_ok (hx _)]
  exact hf rest

theorem Reads.then {x : WireReader ε α} {f : α → WireReader ε β} {c : β} (hx : Reads x b a)
    (hf : Reads (f a) [] c) : Reads (x >>= f) b c := by
  simpa using hx.bind hf

theorem Reads.blame {x : WireReader ε α} (hx : Reads x b a) (word : ε → ε') :
    Reads (Stateful.blame word x) b a := by
  intro rest
  rw [Stateful.runFrom_blame, hx rest]

/-- Whatever stands behind these bytes, the reader fails with `e`. -/
def Fails (reader : WireReader ε α) (b : Bytes) (e : ε) : Prop :=
  ∀ rest, ∃ rest', reader.runFrom (b ++ rest) = (.error e, rest')

theorem fails_throw (e : ε) : Fails (throw e : WireReader ε α) [] e := fun rest => ⟨rest, rfl⟩

theorem fails_done (e : ε) : Fails (Stateful.done (.error e) : WireReader ε α) [] e :=
  fun rest => ⟨rest, rfl⟩

theorem Fails.append {x : WireReader ε α} {e : ε} (h : Fails x b e) (b' : Bytes) :
    Fails x (b ++ b') e := by
  intro rest
  rw [List.append_assoc]
  exact h _

theorem Fails.bind {x : WireReader ε α} {e : ε} (h : Fails x b e) (f : α → WireReader ε β) :
    Fails (x >>= f) b e := by
  intro rest
  obtain ⟨rest', hx⟩ := h rest
  exact ⟨rest', Stateful.runFrom_bind_of_error hx⟩

theorem Fails.blame {x : WireReader ε α} {e : ε} (h : Fails x b e) (word : ε → ε') :
    Fails (Stateful.blame word x) b (word e) := by
  intro rest
  obtain ⟨rest', hx⟩ := h rest
  exact ⟨rest', by rw [Stateful.runFrom_blame, hx]⟩

theorem Reads.fails {x : WireReader ε α} {f : α → WireReader ε β} {e : ε} (hx : Reads x b a)
    (hf : Fails (f a) b' e) : Fails (x >>= f) (b ++ b') e := by
  intro rest
  rw [List.append_assoc, Stateful.runFrom_bind_of_ok (hx _)]
  exact hf rest

theorem reads_take {n : Nat} (h : b.length = n) : Reads (take n) b b := by
  intro rest
  subst h
  unfold take
  simp only [Stateful.runFrom_bind, Stateful.runFrom_get, List.take_left, if_true,
    Stateful.runFrom_set, List.drop_left, Stateful.runFrom_pure]

/-! ## Up to the end -/

section

variable {step : σ → WireReader ε σ} {takes : ∀ s, TakesAtLeast 1 (step s)} {s s' : σ}

theorem foldToEnd_nil : foldToEnd step takes s [] = .ok s := by
  rw [foldToEnd]
  rfl

theorem foldToEnd_of_ne_nil (hb : b ≠ []) :
    foldToEnd step takes s b =
      match (step s).runFrom b with
      | (.ok s', rest) => foldToEnd step takes s' rest
      | (.error e, _) => .error e := by
  rw [foldToEnd, if_neg (by simpa using hb)]
  split <;> rename_i heq <;> rw [heq]

theorem foldToEnd_of_error {e : ε} (hb : b ≠ []) (h : (step s).runFrom b = (.error e, rest)) :
    foldToEnd step takes s b = .error e := by
  rw [foldToEnd_of_ne_nil hb, h]

theorem foldToEnd_append (h : Reads (step s) b s') :
    foldToEnd step takes s (b ++ rest) = foldToEnd step takes s' rest := by
  have hlength := takes s (h rest)
  have hne : b ++ rest ≠ [] := by
    intro hnil
    rw [hnil] at hlength
    simp at hlength
  rw [foldToEnd_of_ne_nil hne, h rest]

/-- What every step preserves holds at the end. -/
theorem foldToEnd_invariant {P : σ → Prop}
    (hstep : ∀ s b s' rest, P s → (step s).runFrom b = (.ok s', rest) → P s')
    (hs : P s) (h : foldToEnd step takes s b = .ok s') : P s' := by
  fun_induction foldToEnd step takes s b with
  | case1 s b hempty =>
    cases h
    exact hs
  | case2 s b hempty next rest hread ih => exact ih (hstep s b next rest hs hread) h
  | case3 => cases h

end

end WireReader

/-! ## Numbers and keys -/

namespace Varint

/-- The bytes stand for a number, lowest digits first, in as many bytes as one likes. -/
inductive Digits : Bytes → Nat → Prop
  | last {b : UInt8} : b < 0x80 → Digits [b] b.toNat
  | more {b : UInt8} {rest : Bytes} {n : Nat} :
      ¬b < 0x80 → Digits rest n → Digits (b :: rest) (b.toNat - 128 + 128 * n)

/-- One of the ways to write a number of 64 bits. -/
structure Spells (b : Bytes) (n : Nat) : Prop where
  digits : Digits b n
  length : b.length ≤ maxWidth
  lt : n < UInt64.size

theorem spells_byte {b : UInt8} (h : b < 0x80) : Spells [b] b.toNat :=
  ⟨.last h, Nat.le_add_left 1 9, Nat.lt_trans b.toNat_lt (by decide)⟩

theorem Digits.ne_nil {b : Bytes} {n : Nat} (h : Digits b n) : b ≠ [] := by
  cases h <;> exact List.cons_ne_nil _ _

theorem Digits.split? {b : Bytes} {n width : Nat} (h : Digits b n) (hwidth : b.length ≤ width)
    (rest : Bytes) : split? width (b ++ rest) = some (n, rest) := by
  induction h generalizing width with
  | last hlast =>
    obtain ⟨width, rfl⟩ := Nat.exists_eq_add_of_le' hwidth
    exact if_pos hlast
  | @more first digits high hmore _ ih =>
    obtain ⟨width, rfl⟩ := Nat.exists_eq_add_of_le' (Nat.le_trans (Nat.le_add_left 1 _) hwidth)
    rw [List.cons_append, Varint.split?, if_neg hmore, ih (Nat.le_of_succ_le_succ hwidth)]
    rfl

theorem Spells.reads {b : Bytes} {n : Nat} (h : Spells b n) :
    WireReader.Reads read b (.ofNat n) := by
  intro rest
  unfold read
  simp only [Stateful.runFrom_bind, Stateful.runFrom_get, h.digits.split? h.length, if_pos h.lt,
    Stateful.runFrom_set, Stateful.runFrom_pure]

theorem digits_encode (n : Nat) : Digits (encode n) n := by
  fun_induction encode n with
  | case1 n hsmall =>
    have hn := UInt8.toNat_ofNat_of_lt' (n := n) (by unfold UInt8.size; omega)
    have hlast : UInt8.ofNat n < 0x80 := by
      rw [UInt8.lt_iff_toNat_lt, hn]
      exact hsmall
    have hdigits := Digits.last hlast
    rwa [hn] at hdigits
  | case2 n hsmall ih =>
    have hn := UInt8.toNat_ofNat_of_lt' (n := n % 128 + 128) (by unfold UInt8.size; omega)
    have hmore : ¬UInt8.ofNat (n % 128 + 128) < 0x80 := by
      rw [UInt8.lt_iff_toNat_lt, hn]
      show ¬n % 128 + 128 < 128
      omega
    have hdigits := Digits.more hmore ih
    rwa [hn, Nat.add_sub_cancel, Nat.mod_add_div] at hdigits

/-- How many numbers have room in `width` bytes. -/
def capacity : (width : Nat) → Nat
  | 0 => 1
  | width + 1 => 128 * capacity width

theorem length_encode_le {width n : Nat} (h : n < capacity (width + 1)) :
    (encode n).length ≤ width + 1 := by
  fun_induction encode n generalizing width with
  | case1 n hsmall => exact Nat.le_add_left 1 width
  | case2 n hsmall ih =>
    obtain ⟨width, rfl⟩ : ∃ k, width = k + 1 := by
      cases width with
      | zero => exact absurd h hsmall
      | succ k => exact ⟨k, rfl⟩
    have hdiv : n / 128 < capacity (width + 1) := by
      rw [capacity] at h
      omega
    exact Nat.succ_le_succ (ih hdiv)

theorem spells_encode {n : Nat} (h : n < UInt64.size) : Spells (encode n) n :=
  ⟨digits_encode n, length_encode_le (Nat.lt_of_lt_of_le h (by decide)), h⟩

end Varint

namespace WireKey

/-- Numbers of fields are below 2^29: a key has 32 bits, and three of them are for the wire type. -/
def numberBound : Nat := UInt32.size / 8

/-- One of the ways to write a key. -/
structure Spells (b : Bytes) (key : WireKey) : Prop where
  number : Varint.Spells b (8 * key.number + key.wireType.code)
  pos : 0 < key.number
  lt : key.number < numberBound

theorem word_lt {key : WireKey} (h : key.number < numberBound) :
    8 * key.number + key.wireType.code < UInt32.size := by
  have hcode : key.wireType.code < 8 := by cases key.wireType <;> decide
  unfold numberBound at h
  omega

theorem ofNumber_ofNat {key : WireKey} (hpos : 0 < key.number) (h : key.number < numberBound) :
    ofNumber (.ofNat (8 * key.number + key.wireType.code)) = .ok key := by
  have hcode : key.wireType.code < 8 := by cases key.wireType <;> decide
  have hdiv : (8 * key.number + key.wireType.code) / 8 = key.number := by omega
  have hword := word_lt h
  unfold ofNumber
  rw [UInt64.toNat_ofNat_of_lt' (Nat.lt_trans hword (by decide)), if_neg (by omega),
    Nat.mul_add_mod, Nat.mod_eq_of_lt hcode, WireType.ofCode?_code]
  simp only [hdiv]
  rw [if_neg (by omega)]

theorem Spells.reads {b : Bytes} {key : WireKey} (h : Spells b key) :
    WireReader.Reads read b key := by
  refine h.number.reads.then (f := fun n => Stateful.done (ofNumber n)) ?_
  rw [ofNumber_ofNat h.pos h.lt]
  exact WireReader.reads_done key

theorem spells_encode {key : WireKey} (hpos : 0 < key.number) (h : key.number < numberBound) :
    Spells key.encode key :=
  ⟨Varint.spells_encode (Nat.lt_trans (word_lt h) (by decide)), hpos, h⟩

end WireKey

end Utxo
