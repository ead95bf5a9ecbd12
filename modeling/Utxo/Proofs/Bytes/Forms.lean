import Mathlib.Tactic.SplitIfs
import Utxo.Proofs.Bytes.Reading

/-!
# The forms of a compact size

A number can be written in every form with room for it. Reading takes all of them, and tells from
the bytes which one it was; writing takes the shortest.
-/

namespace Utxo.CompactSize

inductive Form where
  | byte
  | short
  | middle
  | long
  deriving DecidableEq

namespace Form

def width : Form → Nat
  | byte => 1
  | short => 3
  | middle => 5
  | long => 9

/-- The least number without room in the form. -/
def limit : Form → Nat
  | byte => 0xfd
  | short => UInt16.size
  | middle => UInt32.size
  | long => UInt64.size

def Fits (form : Form) (n : Nat) : Prop := n < form.limit

instance (form : Form) (n : Nat) : Decidable (form.Fits n) := inferInstanceAs (Decidable (_ < _))

/-- The number fits, and it fits into no form of fewer bytes. -/
def IsShortest (form : Form) (n : Nat) : Prop :=
  form.Fits n ∧ ∀ other : Form, other.Fits n → form.width ≤ other.width

def encode : Form → Nat → Bytes
  | byte, n => Bytes.ofNatLE 1 n
  | short, n => 0xfd :: Bytes.ofNatLE 2 n
  | middle, n => 0xfe :: Bytes.ofNatLE 4 n
  | long, n => 0xff :: Bytes.ofNatLE 8 n

def shortest (n : Nat) : Form :=
  if byte.Fits n then byte else if short.Fits n then short else if middle.Fits n then middle
  else long

variable {form other : Form} {n m : Nat}

@[simp] theorem length_encode (form : Form) (n : Nat) : (form.encode n).length = form.width := by
  cases form <;> simp [encode, width]

theorem width_injective (h : form.width = other.width) : form = other := by
  cases form <;> cases other <;> simp_all [width]

theorem Fits.lt_size (h : form.Fits n) : n < UInt64.size := by
  unfold Fits at h
  have hlimit : form.limit ≤ UInt64.size := by cases form <;> decide
  omega

theorem isShortest_shortest (h : n < UInt64.size) : (shortest n).IsShortest n := by
  have hlong : long.Fits n := h
  unfold shortest
  split_ifs with hbyte hshort hmiddle
  · refine ⟨hbyte, ?_⟩
    intro other _
    cases other <;> simp [width]
  · refine ⟨hshort, ?_⟩
    intro other hother
    cases other <;> simp_all [width]
  · refine ⟨hmiddle, ?_⟩
    intro other hother
    cases other <;> simp_all [width]
  · refine ⟨hlong, ?_⟩
    intro other hother
    cases other <;> simp_all [width]

theorem IsShortest.eq_shortest (h : form.IsShortest n) : form = shortest n := by
  have hshortest := isShortest_shortest h.1.lt_size
  apply width_injective
  have hle := h.2 _ hshortest.1
  have hge := hshortest.2 _ h.1
  omega

end Form

/-! ## Writing -/

theorem encode_eq_shortest (v : UInt64) : encode v = (Form.shortest v.toNat).encode v.toNat := by
  have hbyte : Form.byte.Fits v.toNat ↔ v < 0xfd := Iff.rfl
  have hshort : Form.short.Fits v.toNat ↔ v ≤ 0xffff := by
    rw [UInt64.le_iff_toNat_le]
    exact Nat.lt_succ_iff
  have hmiddle : Form.middle.Fits v.toNat ↔ v ≤ 0xffffffff := by
    rw [UInt64.le_iff_toNat_le]
    exact Nat.lt_succ_iff
  unfold encode Form.shortest
  simp only [hbyte, hshort, hmiddle]
  split_ifs <;> rfl

theorem length_encode (v : UInt64) : (encode v).length = length v := by
  unfold encode length
  split_ifs <;> simp

theorem length_eq_width (v : UInt64) : length v = (Form.shortest v.toNat).width := by
  rw [← length_encode, encode_eq_shortest, Form.length_encode]

/-! ## Reading -/

open Reader

variable {c c' : Cursor}

/-- A small number is its own first byte, and no mark of a longer form. -/
theorem ofNat_ne_mark {n : Nat} (hn : n < 0xfd) {mark : UInt8} (hmark : 0xfd ≤ mark.toNat) :
    UInt8.ofNat n ≠ mark := by
  rintro rfl
  rw [UInt8.toNat_ofNat'] at hmark
  omega

theorem read_of_form {form : Form} {n : Nat} (hfits : form.Fits n)
    (h : Takes c (form.encode n) c') : read.runFrom c = (.ok (UInt64.ofNat n), c') := by
  unfold read
  cases form with
  | byte =>
    have hlt : n < 0xfd := hfits
    have hone : Takes c [UInt8.ofNat n] c' := h
    rw [Stateful.runFrom_bind_of_ok (byte_of_takes hone), if_neg (ofNat_ne_mark hlt (by decide)),
      if_neg (ofNat_ne_mark hlt (by decide)), if_neg (ofNat_ne_mark hlt (by decide)),
      Stateful.runFrom_pure, UInt8.toUInt64_ofNat' (Nat.lt_trans hlt (by decide))]
  | short =>
    obtain ⟨u, hmark, h⟩ := Takes.split (a := [0xfd]) h
    rw [Stateful.runFrom_bind_of_ok (byte_of_takes hmark), if_neg (by decide), if_neg (by decide),
      if_pos rfl, Stateful.runFrom_bind_of_ok (u16LE_of_takes hfits h), Stateful.runFrom_pure,
      UInt16.toUInt64_ofNat' hfits]
  | middle =>
    obtain ⟨u, hmark, h⟩ := Takes.split (a := [0xfe]) h
    rw [Stateful.runFrom_bind_of_ok (byte_of_takes hmark), if_neg (by decide), if_pos rfl,
      Stateful.runFrom_bind_of_ok (u32LE_of_takes hfits h), Stateful.runFrom_pure,
      UInt32.toUInt64_ofNat' hfits]
  | long =>
    obtain ⟨u, hmark, h⟩ := Takes.split (a := [0xff]) h
    rw [Stateful.runFrom_bind_of_ok (byte_of_takes hmark), if_pos rfl]
    exact u64LE_of_takes hfits h

/-- What is read stands there in one of its forms. -/
theorem read_ok {v : UInt64} (h : read.runFrom c = (.ok v, c')) :
    ∃ form : Form, form.Fits v.toNat ∧ Takes c (form.encode v.toNat) c' := by
  obtain ⟨first, u, hfirst, h⟩ := Stateful.runFrom_bind_ok.mp h
  have hmark := byte_ok hfirst
  split_ifs at h with hlong hmiddle hshort
  · subst hlong
    exact ⟨.long, v.toNat_lt, hmark.trans (u64LE_ok h)⟩
  · subst hmiddle
    obtain ⟨w, u', hw, h⟩ := Stateful.runFrom_bind_ok.mp h
    cases h
    rw [UInt32.toNat_toUInt64]
    exact ⟨.middle, w.toNat_lt, hmark.trans (u32LE_ok hw)⟩
  · subst hshort
    obtain ⟨w, u', hw, h⟩ := Stateful.runFrom_bind_ok.mp h
    cases h
    rw [UInt16.toNat_toUInt64]
    exact ⟨.short, w.toNat_lt, hmark.trans (u16LE_ok hw)⟩
  · cases h
    have hlt := first.toNat_lt
    refine ⟨.byte, ?_, ?_⟩
    · -- The three bytes above are the marks, so what is left is small.
      have hne : ∀ mark : UInt8, first ≠ mark → first.toNat ≠ mark.toNat := by
        intro mark hne heq
        exact hne (UInt8.toNat_inj.mp heq)
      have h1 := hne _ hlong
      have h2 := hne _ hmiddle
      have h3 := hne _ hshort
      simp only [Form.Fits, Form.limit, UInt8.toNat_toUInt64]
      simp at h1 h2 h3
      omega
    · simpa [Form.encode, Bytes.ofNatLE] using hmark

theorem read_of_takes {v : UInt64} (h : Takes c (encode v) c') : read.runFrom c = (.ok v, c') := by
  rw [encode_eq_shortest] at h
  have hfits := (Form.isShortest_shortest v.toNat_lt).1
  rw [read_of_form hfits h, UInt64.ofNat_toNat]

/-- Only one number starts a byte string, and it does so in only one form. -/
theorem Form.encode_append_inj {form other : Form} {n m : Nat} {b d : Bytes} (hn : form.Fits n)
    (hm : other.Fits m) (h : form.encode n ++ b = other.encode m ++ d) :
    form = other ∧ n = m ∧ b = d := by
  have hleft := read_of_form hn (takes_start (form.encode n) b)
  have hright := read_of_form hm (takes_start (other.encode m) d)
  rw [h, hright] at hleft
  simp only [Prod.mk.injEq, Except.ok.injEq, Cursor.mk.injEq, length_encode] at hleft
  obtain ⟨hvalue, hwidth, hrest⟩ := hleft
  refine ⟨Form.width_injective hwidth.symm, ?_, hrest.symm⟩
  have htoNat := congrArg UInt64.toNat hvalue
  rw [UInt64.toNat_ofNat_of_lt' hn.lt_size, UInt64.toNat_ofNat_of_lt' hm.lt_size] at htoNat
  exact htoNat.symm

/-! ## The number at the front -/

theorem decode_of_form {form : Form} {n : Nat} (hfits : form.Fits n) (rest : Bytes) :
    decode (form.encode n ++ rest) = .ok (UInt64.ofNat n, form.width) := by
  unfold decode
  rw [read_of_form hfits (takes_start (form.encode n) rest), Form.length_encode]

theorem decode_ok_iff {data : Bytes} {v : UInt64} {n : Nat} :
    decode data = .ok (v, n) ↔ ∃ (form : Form) (rest : Bytes),
      form.Fits v.toNat ∧ n = form.width ∧ data = form.encode v.toNat ++ rest := by
  constructor
  · intro h
    unfold decode at h
    split at h
    · rename_i w c hread
      simp only [Except.ok.injEq, Prod.mk.injEq] at h
      obtain ⟨rfl, rfl⟩ := h
      obtain ⟨form, hfits, hrest, hposition⟩ := read_ok hread
      refine ⟨form, c.rest, hfits, ?_, hrest⟩
      rw [hposition, Form.length_encode]
      exact Nat.zero_add _
    · simp at h
  · rintro ⟨form, rest, hfits, rfl, rfl⟩
    rw [decode_of_form hfits, UInt64.ofNat_toNat]

theorem decode_encode_append (v : UInt64) (rest : Bytes) :
    decode (encode v ++ rest) = .ok (v, length v) := by
  apply decode_ok_iff.mpr
  refine ⟨Form.shortest v.toNat, rest, (Form.isShortest_shortest v.toNat_lt).1, ?_, ?_⟩
  · exact length_eq_width v
  · rw [encode_eq_shortest]

/-- The shortest form alone is as short as what is written. -/
theorem Form.encode_eq_iff {form : Form} {v : UInt64} (hfits : form.Fits v.toNat) :
    length v ≤ form.width ∧
      (form.encode v.toNat = CompactSize.encode v ↔ form.width = length v) := by
  have hshortest := isShortest_shortest v.toNat_lt
  rw [length_eq_width, encode_eq_shortest]
  refine ⟨hshortest.2 form hfits, ?_⟩
  constructor
  · intro h
    have hlength := congrArg List.length h
    rwa [length_encode, length_encode] at hlength
  · intro h
    rw [width_injective h]

/-- What is written is read back, whatever stands behind it. Of all the byte strings that are read
as the number no other one is as short. -/
theorem decode_shortest (v : UInt64) :
    (∀ rest, (encode v).length = length v ∧ decode (encode v ++ rest) = .ok (v, length v)) ∧
    (∀ data n, decode data = .ok (v, n) →
      n ≤ data.length ∧ length v ≤ n ∧ (data.take n = encode v ↔ n = length v)) ∧
    ∀ data, decode data = .ok (v, data.length) →
      data = encode v ∨ (encode v).length < data.length := by
  have htaken : ∀ data n, decode data = .ok (v, n) →
      n ≤ data.length ∧ length v ≤ n ∧ (data.take n = encode v ↔ n = length v) := by
    intro data n h
    obtain ⟨form, rest, hfits, rfl, rfl⟩ := decode_ok_iff.mp h
    have htake : (form.encode v.toNat ++ rest).take form.width = form.encode v.toNat :=
      List.take_left' (Form.length_encode form v.toNat)
    rw [htake]
    exact ⟨by simp, Form.encode_eq_iff hfits⟩
  refine ⟨fun rest => ⟨length_encode v, decode_encode_append v rest⟩, htaken, ?_⟩
  intro data h
  obtain ⟨-, hle, hiff⟩ := htaken data data.length h
  rw [List.take_length] at hiff
  rw [hiff, length_encode]
  omega

/-- The number 5 in the three bytes of the second form, and a byte behind them. -/
theorem decode_shortest_widened :
    decode [0xfd, 0x05, 0x00, 0xaa] = .ok (5, 3) ∧ length 5 ≤ 3 ∧
      [0xfd, 0x05, 0x00] ≠ encode 5 := by
  have h : decode [0xfd, 0x05, 0x00, 0xaa] = .ok (5, 3) := rfl
  obtain ⟨-, hle, hiff⟩ := (decode_shortest 5).2.1 _ _ h
  exact ⟨h, hle, fun heq => absurd (hiff.mp heq) (by decide)⟩

/-! ## Frames -/

theorem readFrame_of_form {form : Form} {b : Bytes} (hfits : form.Fits b.length)
    (h : Takes c (form.encode b.length ++ b) c') : readFrame.runFrom c = (.ok b, c') := by
  obtain ⟨u, hlength, h⟩ := Takes.split h
  rw [readFrame, Stateful.runFrom_bind_of_ok (read_of_form hfits hlength),
    UInt64.toNat_ofNat_of_lt' hfits.lt_size]
  exact bytes_of_takes rfl h

theorem readFrame_ok {b : Bytes} (h : readFrame.runFrom c = (.ok b, c')) :
    ∃ form : Form, form.Fits b.length ∧ Takes c (form.encode b.length ++ b) c' := by
  obtain ⟨count, u, hcount, h⟩ := Stateful.runFrom_bind_ok.mp h
  obtain ⟨form, hfits, hlength⟩ := read_ok hcount
  obtain ⟨hlen, htakes⟩ := bytes_ok h
  rw [← hlen] at hfits hlength
  exact ⟨form, hfits, hlength.trans htakes⟩

theorem frame_eq_shortest {b : Bytes} (hb : b.length < UInt64.size) :
    frame b = (Form.shortest b.length).encode b.length ++ b := by
  rw [frame, encode_eq_shortest, ofLength, UInt64.toNat_ofNat_of_lt' hb]

theorem readFrame_of_takes {b : Bytes} (hb : b.length < UInt64.size) (h : Takes c (frame b) c') :
    readFrame.runFrom c = (.ok b, c') := by
  rw [frame_eq_shortest hb] at h
  exact readFrame_of_form (Form.isShortest_shortest hb).1 h

end Utxo.CompactSize
