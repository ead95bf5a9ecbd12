import Mathlib.Algebra.GroupWithZero.Nat
import Utxo.Proofs.Bytes.Forms
import Utxo.Proofs.Bytes.Local
import Utxo.Script.Basic

/-!
# Reading on after a failure

One thing after the other is asked for at a cursor, in any order, and also after a read has failed.
Every read is made of single reads, which take all their bytes or none. The main statement says
where the cursor stands behind each read, and what a failure tells.
-/

namespace Utxo

open Reader

/-! ## What can be asked for -/

/-- A read that takes all its bytes at once. -/
inductive SingleRead where
  | bytes (n : Nat)
  | array (n : Nat)
  | byte
  | u16LE
  | u16BE
  | u32LE
  | u32BE
  | u64LE
  deriving DecidableEq, Repr

namespace SingleRead

def width : SingleRead → Nat
  | bytes n | array n => n
  | byte => 1
  | u16LE | u16BE => 2
  | u32LE | u32BE => 4
  | u64LE => 8

def Found : SingleRead → Type
  | bytes _ => Bytes
  | array n => FixedBytes n
  | byte => UInt8
  | u16LE | u16BE => UInt16
  | u32LE | u32BE => UInt32
  | u64LE => UInt64

def reader : (r : SingleRead) → Reader Truncated r.Found
  | bytes n => Reader.bytes n
  | array n => Reader.fixed n
  | byte => Reader.byte
  | u16LE => Reader.u16LE
  | u16BE => Reader.u16BE
  | u32LE => Reader.u32LE
  | u32BE => Reader.u32BE
  | u64LE => Reader.u64LE

/-- The bytes that are found, or that a number is written in. -/
def encode : (r : SingleRead) → r.Found → Bytes
  | bytes _, b => b
  | array _, b => b.val
  | byte, v => [v]
  | u16LE, v => Bytes.ofUInt16 v
  | u16BE, v => Bytes.ofNatBE 2 v.toNat
  | u32LE, v => Bytes.ofUInt32 v
  | u32BE, v => Bytes.ofNatBE 4 v.toNat
  | u64LE, v => Bytes.ofUInt64 v

theorem single (r : SingleRead) : Single r.reader r.width :=
  match r with
  | bytes n => single_bytes n
  | array n => single_fixed n
  | byte => single_byte
  | u16LE => single_u16LE
  | u16BE => single_u16BE
  | u32LE => single_u32LE
  | u32BE => single_u32BE
  | u64LE => single_u64LE

theorem takes {r : SingleRead} {item : r.Found} {c c' : Cursor}
    (h : r.reader.runFrom c = (.ok item, c')) : Takes c (r.encode item) c' :=
  match r with
  | bytes _ => (bytes_ok h).2
  | array _ => fixed_ok h
  | byte => byte_ok h
  | u16LE => u16LE_ok h
  | u16BE => u16BE_ok h
  | u32LE => u32LE_ok h
  | u32BE => u32BE_ok h
  | u64LE => u64LE_ok h

end SingleRead

inductive Read where
  | single (r : SingleRead)
  | compactSize
  | frame
  | operation
  | script
  deriving DecidableEq, Repr

namespace Read

def Found : Read → Type
  | single r => r.Found
  | compactSize => UInt64
  | frame => Bytes
  | operation => Operation
  | script => Script

def reader : (r : Read) → Reader Truncated r.Found
  | single r => r.reader
  | compactSize => CompactSize.read
  | frame => CompactSize.readFrame
  | operation => Operation.read
  | script => Script.read

/-- The bytes that a found item stands for, where the item tells them. A number in front of
something may have stood there in any form. -/
def encode? : (r : Read) → r.Found → Option Bytes
  | single r, item => some (r.encode item)
  | operation, op => some op.encode
  | compactSize, _ | frame, _ | script, _ => none

end Read

/-- What a read came to. -/
structure Answer where
  read : Read
  outcome : Except Truncated read.Found

/-- The answers to reads in a row, and the cursor behind them. A failure does not end the row. -/
def Cursor.ask : Cursor → List Read → List Answer × Cursor
  | c, [] => ([], c)
  | c, r :: reads =>
    let (outcome, next) := r.reader.runFrom c
    let (answers, c') := next.ask reads
    (⟨r, outcome⟩ :: answers, c')

/-! ## Reads made of single reads -/

namespace Reader

variable {α β : Type} {widths more : List Nat} {c c' u : Cursor} {e : Truncated}

/-- From `c` to `c'` as many bytes are taken as single reads of these widths take. -/
def Completes (widths : List Nat) (c c' : Cursor) : Prop :=
  ∃ b : Bytes, b.length = widths.sum ∧ Takes c b c'

/-- Of single reads of these widths the first ones are complete, and the cursor `c'` stands behind
them. The next one lacks bytes. -/
def BreaksOff (widths : List Nat) (c : Cursor) (e : Truncated) (c' : Cursor) : Prop :=
  ∃ done next left, widths = done ++ next :: left ∧ Completes done c c' ∧
    e = ⟨next, c'.remaining⟩ ∧ c'.remaining < next

/-- The outcome is that of single reads of these widths, one after the other. -/
def InSteps (widths : List Nat) (c : Cursor) : Except Truncated α × Cursor → Prop
  | (.ok _, c') => Completes widths c c'
  | (.error e, c') => BreaksOff widths c e c'

theorem completes_nil (c : Cursor) : Completes [] c c := ⟨[], rfl, takes_nil_iff.mpr rfl⟩

theorem Completes.append (h : Completes widths c u) (hmore : Completes more u c') :
    Completes (widths ++ more) c c' := by
  obtain ⟨b, hlength, htakes⟩ := h
  obtain ⟨b', hlength', htakes'⟩ := hmore
  refine ⟨b ++ b', ?_, htakes.trans htakes'⟩
  rw [List.length_append, List.sum_append, hlength, hlength']

theorem Completes.breaksOff (h : Completes widths c u) (hmore : BreaksOff more u e c') :
    BreaksOff (widths ++ more) c e c' := by
  obtain ⟨done, next, left, rfl, hdone, hlacks⟩ := hmore
  exact ⟨widths ++ done, next, left, by simp, h.append hdone, hlacks⟩

theorem BreaksOff.append (h : BreaksOff widths c e c') (more : List Nat) :
    BreaksOff (widths ++ more) c e c' := by
  obtain ⟨done, next, left, rfl, hdone, hlacks⟩ := h
  exact ⟨done, next, left ++ more, by simp, hdone, hlacks⟩

theorem inSteps_pure (a : α) (c : Cursor) :
    InSteps [] c ((pure a : Reader Truncated α).runFrom c) := completes_nil c

theorem Single.inSteps {reader : Reader Truncated α} {n : Nat} (h : Single reader n)
    (c : Cursor) : InSteps [n] c (reader.runFrom c) := by
  by_cases hn : n ≤ c.rest.length
  · have hlength : (c.rest.take n).length = n := List.length_take_of_le hn
    have htakes : Takes c (c.rest.take n) ⟨c.position + n, c.rest.drop n⟩ :=
      ⟨(List.take_append_drop n c.rest).symm, by rw [hlength]⟩
    obtain ⟨a, ha⟩ := h.finds _ hlength
    rw [ha htakes]
    exact ⟨c.rest.take n, by simpa using hlength, htakes⟩
  · have hlt : c.rest.length < n := Nat.lt_of_not_le hn
    rw [h.short c hlt]
    exact ⟨[], n, [], rfl, completes_nil c, rfl, hlt⟩

theorem InSteps.bind {x : Reader Truncated α} {f : α → Reader Truncated β}
    (hx : InSteps widths c (x.runFrom c))
    (hf : ∀ a u, x.runFrom c = (.ok a, u) → InSteps more u ((f a).runFrom u)) :
    InSteps (widths ++ more) c ((x >>= f).runFrom c) := by
  rcases hrun : x.runFrom c with ⟨e | a, u⟩
  · rw [hrun] at hx
    rw [Stateful.runFrom_bind_of_error hrun]
    exact hx.append more
  · have hmore := hf a u hrun
    rw [hrun] at hx
    rw [Stateful.runFrom_bind_of_ok hrun]
    rcases hrest : (f a).runFrom u with ⟨e | r, c'⟩
    · rw [hrest] at hmore
      exact hx.breaksOff hmore
    · rw [hrest] at hmore
      exact hx.append hmore

theorem InSteps.map {x : Reader Truncated α} (h : InSteps widths c (x.runFrom c)) (f : α → β) :
    InSteps widths c ((x >>= fun a => pure (f a)).runFrom c) := by
  have hbind : InSteps (widths ++ []) c ((x >>= fun a => pure (f a)).runFrom c) :=
    h.bind fun a u _ => inSteps_pure (f a) u
  rwa [List.append_nil] at hbind

/-- Which reads follow the first byte may depend on it. -/
theorem inSteps_byte_bind (behind : UInt8 → Bytes → List Nat) {f : UInt8 → Reader Truncated α}
    (hf : ∀ first u, InSteps (behind first u.rest) u ((f first).runFrom u)) (c : Cursor) :
    InSteps (1 :: behind (c.rest.headD 0) c.rest.tail) c ((byte >>= f).runFrom c) := by
  apply (single_byte.inSteps c).bind
  intro first u h
  have hrest := (byte_ok h).1
  rw [hrest]
  exact hf first u

theorem Takes.take_length {b : Bytes} (h : Takes c b c') {n : Nat} (hn : b.length = n) :
    c.rest.take n = b := by
  rw [h.1]
  exact List.take_left' hn

end Reader

/-! ## The widths -/

namespace CompactSize

/-- The widths of the single reads behind the first byte of a number. -/
def widthsBehind (first : UInt8) : List Nat :=
  if first = 0xff then [8] else if first = 0xfe then [4] else if first = 0xfd then [2] else []

/-- The widths of the single reads of a number at the front of `b`. -/
def widths (b : Bytes) : List Nat := 1 :: widthsBehind (b.headD 0)

/-- The widths of the single reads of a frame at the front of `b`. A length that is cut off counts
as nothing; the frame breaks off before. -/
def frameWidths (b : Bytes) : List Nat :=
  widths b ++ [match decode b with | .ok (length, _) => length.toNat | .error _ => 0]

theorem inSteps_read (c : Cursor) : InSteps (widths c.rest) c (read.runFrom c) := by
  unfold read widths
  apply inSteps_byte_bind fun first _ => widthsBehind first
  intro first u
  unfold widthsBehind
  split
  · exact single_u64LE.inSteps u
  split
  · exact (single_u32LE.inSteps u).map _
  split
  · exact (single_u16LE.inSteps u).map _
  · exact inSteps_pure _ u

theorem decode_of_read {c c' : Cursor} {v : UInt64} (h : read.runFrom c = (.ok v, c')) :
    ∃ n, decode c.rest = .ok (v, n) := by
  obtain ⟨form, hfits, htakes⟩ := read_ok h
  exact ⟨form.width, decode_ok_iff.mpr ⟨form, c'.rest, hfits, rfl, htakes.1⟩⟩

theorem inSteps_readFrame (c : Cursor) :
    InSteps (frameWidths c.rest) c (readFrame.runFrom c) := by
  unfold readFrame frameWidths
  apply (inSteps_read c).bind
  intro length u h
  obtain ⟨n, hdecode⟩ := decode_of_read h
  rw [hdecode]
  exact (single_bytes length.toNat).inSteps u

end CompactSize

namespace Operation

/-- The widths of the single reads behind an opcode, with the bytes `b` behind it. A length that is
cut off may count as anything; the operation breaks off before its data. -/
def widthsBehind (op : Opcode) (b : Bytes) : List Nat :=
  if LengthForm.direct.Fits op.toNat then [op.toNat]
  else if op = Opcode.pushData1 then [1, Bytes.toNatBE (b.take 1)]
  else if op = Opcode.pushData2 then [2, Bytes.toNatBE (b.take 2)]
  else if op = Opcode.pushData4 then [4, Bytes.toNatBE (b.take 4)]
  else []

/-- The widths of the single reads of an operation at the front of `b`. -/
def widths (b : Bytes) : List Nat := 1 :: widthsBehind (b.headD 0) b.tail

theorem inSteps_readData (form : LengthForm) (n : Nat) (fits : form.Fits n) (c : Cursor) :
    InSteps [n] c ((readData form n fits).runFrom c) := ((single_fixed n).inSteps c).map _

theorem inSteps_read (c : Cursor) : InSteps (widths c.rest) c (read.runFrom c) := by
  unfold read widths
  apply inSteps_byte_bind widthsBehind
  intro op u
  unfold widthsBehind
  split
  · exact inSteps_readData _ _ _ u
  split
  · apply (single_byte.inSteps u).bind
    intro n v h
    have hn : Bytes.toNatBE (u.rest.take 1) = n.toNat := by
      rw [(byte_ok h).take_length (n := 1) rfl]
      exact Nat.add_zero _
    rw [hn]
    exact inSteps_readData _ _ _ v
  split
  · apply (single_u16BE.inSteps u).bind
    intro n v h
    have hn : Bytes.toNatBE (u.rest.take 2) = n.toNat := by
      rw [(u16BE_ok h).take_length (by simp), Bytes.toNatBE_ofNatBE_of_lt n.toNat_lt]
    rw [hn]
    exact inSteps_readData _ _ _ v
  split
  · apply (single_u32BE.inSteps u).bind
    intro n v h
    have hn : Bytes.toNatBE (u.rest.take 4) = n.toNat := by
      rw [(u32BE_ok h).take_length (by simp), Bytes.toNatBE_ofNatBE_of_lt n.toNat_lt]
    rw [hn]
    exact inSteps_readData _ _ _ v
  · exact inSteps_pure _ u

end Operation

namespace Read

/-- The widths of the single reads that a read at the front of `b` is made of. -/
def widths (r : Read) (b : Bytes) : List Nat :=
  match r with
  | single r => [r.width]
  | compactSize => CompactSize.widths b
  | frame | script => CompactSize.frameWidths b
  | operation => Operation.widths b

theorem inSteps (r : Read) (c : Cursor) : InSteps (r.widths c.rest) c (r.reader.runFrom c) :=
  match r with
  | single r => r.single.inSteps c
  | compactSize => CompactSize.inSteps_read c
  | frame => CompactSize.inSteps_readFrame c
  | operation => Operation.inSteps_read c
  | script => (CompactSize.inSteps_readFrame c).map _

theorem takes_encode? {r : Read} {item : r.Found} {c c' : Cursor}
    (h : r.reader.runFrom c = (.ok item, c')) : ∀ b ∈ r.encode? item, Takes c b c' := by
  intro b hb
  match r with
  | single r =>
    cases hb
    exact r.takes h
  | operation =>
    cases hb
    exact Operation.read_ok h

end Read

/-! ## Reads in a row -/

theorem Cursor.StandsIn.place {data : Bytes} {c : Cursor} (h : c.StandsIn data) :
    c.position ≤ data.length ∧ c.rest = data.drop c.position ∧
      c.remaining = data.length - c.position := by
  have hrest := h.drop
  obtain ⟨consumed, hlength, hdata⟩ := h
  have hsum := congrArg List.length hdata
  rw [List.length_append] at hsum
  refine ⟨by omega, hrest.symm, ?_⟩
  unfold Cursor.remaining
  omega

/-- Also a read that fails stays in the source, and does not go back. -/
theorem Read.exists_takes (r : Read) (c : Cursor) :
    ∃ b, Takes c b (r.reader.runFrom c).2 := by
  have hsteps := r.inSteps c
  rcases hrun : r.reader.runFrom c with ⟨e | item, c'⟩
  · rw [hrun] at hsteps
    obtain ⟨done, next, left, -, ⟨b, -, htakes⟩, -⟩ := hsteps
    exact ⟨b, htakes⟩
  · rw [hrun] at hsteps
    obtain ⟨b, -, htakes⟩ := hsteps
    exact ⟨b, htakes⟩

theorem Read.place_of_ok {data : Bytes} {r : Read} {item : r.Found} {c c' : Cursor}
    (hstands : c.StandsIn data) (h : r.reader.runFrom c = (.ok item, c')) :
    c'.position = c.position + (r.widths c.rest).sum ∧
      ∀ b ∈ r.encode? item, c'.position = c.position + b.length ∧
        (⟨c.position, c'.position⟩ : ByteRange).slice? data = some b := by
  have hsteps := r.inSteps c
  rw [h] at hsteps
  obtain ⟨b, hlength, htakes⟩ := hsteps
  refine ⟨by rw [htakes.2, hlength], ?_⟩
  intro b' hb'
  have htakes' := takes_encode? h b' hb'
  exact ⟨htakes'.2, (hstands.takes htakes').2⟩

theorem Read.place_of_error {r : Read} {e : Truncated} {c c' : Cursor}
    (h : r.reader.runFrom c = (.error e, c')) :
    e.remaining = c'.remaining ∧ e.remaining < e.needed ∧
      (∀ s, r = single s → c' = c ∧ e.needed = s.width) ∧
      ∃ done next left, r.widths c.rest = done ++ next :: left ∧ e.needed = next ∧
        c'.position = c.position + done.sum := by
  have hsteps := r.inSteps c
  rw [h] at hsteps
  obtain ⟨done, next, left, hwidths, ⟨b, hlength, htakes⟩, rfl, hlacks⟩ := hsteps
  refine ⟨rfl, hlacks, ?_, done, next, left, hwidths, rfl, by rw [htakes.2, hlength]⟩
  rintro s rfl
  -- A single read has no read before it that could be complete.
  have hdone : done = [] ∧ s.width = next := by
    have hsingle : [s.width] = done ++ next :: left := hwidths
    cases done <;> simp_all
  obtain ⟨rfl, hnext⟩ := hdone
  rw [List.eq_nil_of_length_eq_zero hlength] at htakes
  exact ⟨takes_nil_iff.mp htakes, hnext.symm⟩

theorem Cursor.StandsIn.ask {data : Bytes} {c : Cursor} (h : c.StandsIn data)
    (reads : List Read) : (c.ask reads).2.StandsIn data := by
  induction reads generalizing c with
  | nil => exact h
  | cons r reads ih =>
    obtain ⟨b, htakes⟩ := r.exists_takes c
    exact ih (h.takes htakes).1

/-- Whatever was asked for before, and however often that failed, a read starts inside the data and
does not go back. An item that is found stands between the two positions. A failure tells how many
bytes are left behind it, fewer than were needed; a single read that fails stays where it was, and
any other one stops behind the last single read that is complete. -/
theorem Read.keeps_place (data : Bytes) (before : List Read) (r : Read) :
    let c := ((Cursor.start data).ask before).2
    let c' := (r.reader.runFrom c).2
    (c.position ≤ c'.position ∧ c'.position ≤ data.length ∧ c'.rest = data.drop c'.position ∧
      c'.remaining = data.length - c'.position) ∧
    match (r.reader.runFrom c).1 with
    | .ok item =>
      c'.position = c.position + (r.widths c.rest).sum ∧
      ∀ b ∈ r.encode? item, c'.position = c.position + b.length ∧
        (⟨c.position, c'.position⟩ : ByteRange).slice? data = some b
    | .error e =>
      e.remaining = c'.remaining ∧ e.remaining < e.needed ∧
      (∀ s, r = single s → c' = c ∧ e.needed = s.width) ∧
      ∃ done next left, r.widths c.rest = done ++ next :: left ∧ e.needed = next ∧
        c'.position = c.position + done.sum := by
  intro c c'
  have hstands : c.StandsIn data := (Cursor.standsIn_start data).ask before
  obtain ⟨b, htakes⟩ := r.exists_takes c
  have hle : c.position ≤ c'.position := by
    rw [htakes.2]
    exact Nat.le_add_right _ _
  refine ⟨⟨hle, (hstands.takes htakes).1.place⟩, ?_⟩
  split
  · rename_i item hitem
    exact place_of_ok hstands (Prod.ext hitem rfl)
  · rename_i e he
    exact place_of_error (Prod.ext he rfl)

/-- A push of three bytes of which two are there, and then a number of four bytes. -/
theorem Read.keeps_place_cut_push :
    let c := ((Cursor.start [0x4d, 0x00, 0x03, 0xaa, 0xbb]).ask [.operation]).2
    c = ⟨3, [0xaa, 0xbb]⟩ ∧ (single .u32LE).reader.runFrom c = (.error ⟨4, 2⟩, c) := by
  have h := keeps_place [0x4d, 0x00, 0x03, 0xaa, 0xbb] [.operation] (single .u32LE)
  obtain ⟨-, -, -, hsingle, -⟩ := h
  exact ⟨rfl, Prod.ext rfl (hsingle .u32LE rfl).1⟩

end Utxo
