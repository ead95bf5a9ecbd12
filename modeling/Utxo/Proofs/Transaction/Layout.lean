import Utxo.Proofs.Bytes.Local
import Utxo.Proofs.Transaction.Reading

/-!
# Where an encoding can break off

A transaction is read in single reads, each of which asks for a number of bytes. If the bytes break
off, they do so inside one of the reads, and that one fails. Which reads there are depends on the
forms of the counts and on the lengths of the scripts, and on nothing else.
-/

namespace Utxo

/-! ## Layouts -/

/-- Reads in a row: the part that each of them belongs to, and how many bytes it asks for. -/
abbrev Layout := List (TransactionPart × Nat)

namespace Layout

def width : Layout → Nat
  | [] => 0
  | (_, w) :: layout => w + width layout

/-- The read that `n` bytes do not suffice for. -/
def missing? : Layout → Nat → Option MissingPart
  | [], _ => none
  | (part, width) :: layout, n =>
    if n < width then some ⟨part, ⟨width, n⟩⟩ else missing? layout (n - width)

variable {layout : Layout} {n : Nat}

@[simp] theorem width_nil : width [] = 0 := rfl

@[simp] theorem width_cons (part : TransactionPart) (w : Nat) (layout : Layout) :
    width ((part, w) :: layout) = w + layout.width := rfl

@[simp] theorem width_append (layout more : Layout) :
    width (layout ++ more) = layout.width + more.width := by
  induction layout with
  | nil => simp
  | cons read layout ih =>
    obtain ⟨part, w⟩ := read
    rw [List.cons_append, width_cons, width_cons, ih, Nat.add_assoc]

theorem missing?_append (layout more : Layout) (n : Nat) :
    missing? (layout ++ more) n =
      if n < layout.width then missing? layout n else missing? more (n - layout.width) := by
  induction layout generalizing n with
  | nil => simp
  | cons read layout ih =>
    obtain ⟨part, w⟩ := read
    rw [List.cons_append, missing?, missing?, ih, width_cons]
    by_cases hshort : n < w
    · rw [if_pos hshort, if_pos hshort, if_pos (by omega)]
    · have hrest : n - w < width layout ↔ n < w + width layout := by omega
      simp only [if_neg hshort, hrest, Nat.sub_sub]

theorem remaining_lt_needed {e : MissingPart} (h : layout.missing? n = some e) :
    e.cause.remaining < e.cause.needed := by
  induction layout generalizing n with
  | nil => simp [missing?] at h
  | cons read layout ih =>
    obtain ⟨part, w⟩ := read
    rw [missing?] at h
    by_cases hshort : n < w
    · rw [if_pos hshort, Option.some.injEq] at h
      subst h
      exact hshort
    · rw [if_neg hshort] at h
      exact ih h

end Layout

/-! ## Readers that follow a layout -/

namespace Reader

variable {α β : Type} {reader : Reader MissingPart α} {layout more : Layout} {p : Nat}
  {b b' : Bytes} {a : α}

/-- From the offset `p` on the reader takes `b` for `a`, whatever stands behind. If the bytes break
off, it fails for the read of the layout in which they do. -/
structure Follows (reader : Reader MissingPart α) (layout : Layout) (p : Nat) (b : Bytes) (a : α) :
    Prop where
  width : layout.width = b.length
  whole : ∀ rest, reader.runFrom ⟨p, b ++ rest⟩ = (.ok a, ⟨p + b.length, rest⟩)
  cut : ∀ n < b.length, ∃ e c, layout.missing? n = some e ∧
    reader.runFrom ⟨p, b.take n⟩ = (.error e, c)

theorem follows_pure (p : Nat) (a : α) : Follows (pure a) [] p [] a := by
  refine ⟨rfl, fun rest => rfl, ?_⟩
  intro n hn
  simp at hn

theorem follows_position (p : Nat) : Follows Reader.position [] p [] p := by
  refine ⟨rfl, fun rest => rfl, ?_⟩
  intro n hn
  simp at hn

theorem Follows.bind {f : α → Reader MissingPart β} {r : β} (hx : reader.Follows layout p b a)
    (hf : (f a).Follows more (p + b.length) b' r) :
    Follows (reader >>= f) (layout ++ more) p (b ++ b') r := by
  refine ⟨?_, ?_, ?_⟩
  · rw [Layout.width_append, hx.width, hf.width, List.length_append]
  · intro rest
    rw [List.append_assoc, Stateful.runFrom_bind_of_ok (hx.whole _), hf.whole, List.length_append,
      Nat.add_assoc]
  · intro n hn
    rw [Layout.missing?_append, hx.width]
    by_cases hfirst : n < b.length
    · obtain ⟨e, c, he, hrun⟩ := hx.cut n hfirst
      rw [if_pos hfirst, List.take_append_of_le_length (Nat.le_of_lt hfirst)]
      exact ⟨e, c, he, Stateful.runFrom_bind_of_error hrun⟩
    · have hn' : n - b.length < b'.length := by rw [List.length_append] at hn; omega
      obtain ⟨e, c, he, hrun⟩ := hf.cut _ hn'
      have htake : (b ++ b').take n = b ++ b'.take (n - b.length) := by
        rw [List.take_append, List.take_of_length_le (by omega)]
      rw [if_neg hfirst, htake, Stateful.runFrom_bind_of_ok (hx.whole _)]
      exact ⟨e, c, he, hrun⟩

theorem Follows.exists_bind {f : α → Reader MissingPart β} (hx : reader.Follows layout p b a)
    (hf : ∃ r, (f a).Follows more (p + b.length) b' r) :
    ∃ r, Follows (reader >>= f) (layout ++ more) p (b ++ b') r := by
  obtain ⟨r, hr⟩ := hf
  exact ⟨r, hx.bind hr⟩

/-- Nothing more is read behind the bytes `b`. -/
theorem Follows.last {f : α → Reader MissingPart β} {r : β} (hx : reader.Follows layout p b a)
    (hf : (f a).Follows [] (p + b.length) [] r) : Follows (reader >>= f) layout p b r := by
  have h := hx.bind hf
  rwa [List.append_nil, List.append_nil] at h

theorem Follows.map (hx : reader.Follows layout p b a) (f : α → β) :
    Follows (reader >>= fun a => pure (f a)) layout p b (f a) := hx.last (follows_pure _ _)

end Reader

/-! ## Single reads -/

open Reader CompactSize

theorem TransactionPart.reading_bind {α β : Type} (part : TransactionPart)
    (reader : Reader Truncated α) (f : α → Reader Truncated β) :
    part.reading (reader >>= f) = part.reading reader >>= fun a => part.reading (f a) := by
  funext c
  show (part.reading (reader >>= f)).runFrom c = (part.reading reader >>= _).runFrom c
  simp only [reading, Stateful.runFrom_blame, Stateful.runFrom_bind]
  rcases reader.runFrom c with ⟨_ | a, u⟩
  · rfl
  · rfl

theorem Reader.Single.follows {α : Type} {reader : Reader Truncated α} {n : Nat}
    (h : Single reader n) (part : TransactionPart) {b : Bytes} {a : α}
    (hb : b.length = n) (ha : reader.Finds b a) (p : Nat) :
    (part.reading reader).Follows [(part, n)] p b a := by
  refine ⟨by simp [hb], ?_, ?_⟩
  · intro rest
    exact part.reading_of_ok (ha ⟨rfl, rfl⟩)
  · intro m hm
    have hshort : (b.take m).length = m := List.length_take_of_le (Nat.le_of_lt hm)
    have hlt : m < n := by rwa [← hb]
    refine ⟨⟨part, ⟨n, m⟩⟩, ⟨p, b.take m⟩, if_pos hlt, ?_⟩
    rw [TransactionPart.reading, Stateful.runFrom_blame, h.short _ (by rwa [hshort]), hshort]

/-! ## Counts and scripts -/

/-- The widths in which a count of a form is read: its first byte, and then what that byte calls
for. -/
def CompactSize.Form.reads : Form → List Nat
  | .byte => [1]
  | .short => [1, 2]
  | .middle => [1, 4]
  | .long => [1, 8]

/-- All of the reads belong to one part. -/
def TransactionPart.layout (part : TransactionPart) (reads : List Nat) : Layout :=
  reads.map (part, ·)

theorem TransactionPart.layout_append (part : TransactionPart) (reads more : List Nat) :
    part.layout (reads ++ more) = part.layout reads ++ part.layout more := List.map_append

theorem CompactSize.follows_read (part : TransactionPart) {form : Form} {n : Nat}
    (hfits : form.Fits n) (p : Nat) :
    (part.reading CompactSize.read).Follows (part.layout form.reads) p (form.encode n)
      (UInt64.ofNat n) := by
  have hmark : ∀ first p, (part.reading byte).Follows [(part, 1)] p [first] first :=
    fun first => single_byte.follows part rfl fun _ _ h => byte_of_takes h
  unfold CompactSize.read
  rw [TransactionPart.reading_bind]
  cases form with
  | byte =>
    have hlt : n < 0xfd := hfits
    have hsmall : (UInt8.ofNat n).toUInt64 = UInt64.ofNat n :=
      UInt8.toUInt64_ofNat' (Nat.lt_trans hlt (by decide))
    refine (hmark (UInt8.ofNat n) p).last ?_
    rw [if_neg (ofNat_ne_mark hlt (by decide)), if_neg (ofNat_ne_mark hlt (by decide)),
      if_neg (ofNat_ne_mark hlt (by decide)), hsmall]
    exact follows_pure _ _
  | short =>
    refine (hmark 0xfd p).bind ?_
    rw [if_neg (by decide), if_neg (by decide), if_pos rfl, TransactionPart.reading_bind,
      ← UInt16.toUInt64_ofNat' hfits]
    exact (single_u16LE.follows part (by simp) (fun _ _ h => u16LE_of_takes hfits h) _).map _
  | middle =>
    refine (hmark 0xfe p).bind ?_
    rw [if_neg (by decide), if_pos rfl, TransactionPart.reading_bind,
      ← UInt32.toUInt64_ofNat' hfits]
    exact (single_u32LE.follows part (by simp) (fun _ _ h => u32LE_of_takes hfits h) _).map _
  | long =>
    refine (hmark 0xff p).bind ?_
    rw [if_pos rfl]
    exact single_u64LE.follows part (by simp) (fun _ _ h => u64LE_of_takes hfits h) _

theorem Script.follows_read (part : TransactionPart) {s : Script} {form : Form}
    (hfits : form.Fits s.encode.length) (p : Nat) :
    (part.reading Script.read).Follows (part.layout (form.reads ++ [s.encode.length])) p
      (s.frameIn form) (decode s.encode) := by
  have hbody : ∀ p, (part.reading (bytes (UInt64.ofNat s.encode.length).toNat)).Follows
      (part.layout [s.encode.length]) p s.encode s.encode := by
    rw [UInt64.toNat_ofNat_of_lt' hfits.lt_size]
    exact (single_bytes _).follows part rfl fun _ _ h => bytes_of_takes rfl h
  rw [Script.read, readFrame, TransactionPart.reading_bind, TransactionPart.reading_bind,
    TransactionPart.layout_append]
  exact ((CompactSize.follows_read part hfits p).bind (hbody _)).map decode

/-! ## Inputs and outputs -/

namespace TransactionInput

def layout (form : Form) (scriptLength : Nat) : Layout :=
  (.sourceId, 32) :: (.outputIndex, 4) ::
    (TransactionPart.unlockingScript.layout (form.reads ++ [scriptLength]) ++
      [(.sequenceNumber, 4)])

theorem follows_read {form : Form} {input : TransactionInput}
    (hfits : form.Fits input.unlocking.encode.length) (p : Nat) :
    ∃ back,
      read.Follows (layout form input.unlocking.encode.length) p (input.encodeIn form) back := by
  have hsource := fun p => (single_fixed 32).follows .sourceId input.outpoint.source.wire.property
    (fun _ _ h => fixed_of_takes input.outpoint.source.wire.property h) p
  have hindex := fun p => single_u32LE.follows .outputIndex (by simp)
    (fun _ _ h => u32_of_takes (v := input.outpoint.index) h) p
  have hsequence := fun p => single_u32LE.follows .sequenceNumber (by simp)
    (fun _ _ h => u32_of_takes (v := input.sequence) h) p
  rw [encodeIn, Outpoint.encode, List.append_assoc, List.append_assoc]
  exact ⟨_, (follows_position p).bind <| (hsource _).bind <| (hindex _).bind <|
    (Script.follows_read .unlockingScript hfits _).bind <| (hsequence _).last <|
    (follows_position _).last <| follows_pure _ _⟩

end TransactionInput

namespace TransactionOutput

def layout (form : Form) (scriptLength : Nat) : Layout :=
  (.satoshis, 8) :: TransactionPart.lockingScript.layout (form.reads ++ [scriptLength])

theorem follows_read {form : Form} {output : TransactionOutput}
    (hfits : form.Fits output.locking.encode.length) (p : Nat) :
    ∃ back,
      read.Follows (layout form output.locking.encode.length) p (output.encodeIn form) back := by
  have hsatoshis := fun p => single_u64LE.follows .satoshis (by simp)
    (fun _ _ h => u64_of_takes (v := output.satoshis) h) p
  exact ⟨_, (follows_position p).bind <| (hsatoshis _).bind <|
    (Script.follows_read .lockingScript hfits _).last <| (follows_position _).last <|
    follows_pure _ _⟩

end TransactionOutput

/-- Items in a row are read in the layouts of the items. -/
theorem Reader.follows_times {α : Type} {reader : Reader MissingPart α} {fits : Form → α → Prop}
    {layoutIn : Form → α → Layout} {encodeIn : Form → α → Bytes}
    (hread : ∀ form item p, fits form item →
      ∃ back, reader.Follows (layoutIn form item) p (encodeIn form item) back)
    {forms : List Form} {items : List α} (h : List.Forall₂ fits forms items) (p : Nat) :
    ∃ backs, (times reader items.length).Follows (forms.zipWith layoutIn items).flatten p
      (forms.zipWith encodeIn items).flatten backs := by
  induction h generalizing p with
  | nil => exact ⟨[], follows_pure p []⟩
  | @cons form item forms items hfits _ ih =>
    obtain ⟨back, hback⟩ := hread form item p hfits
    obtain ⟨backs, hbacks⟩ := ih (p + (encodeIn form item).length)
    exact ⟨back :: backs, hback.bind (hbacks.map (back :: ·))⟩

/-! ## Transactions -/

namespace Transaction

/-- The reads of an encoding whose counts are in these forms. -/
def layout (forms : Forms) (tx : Transaction) : Layout :=
  (.version, 4) ::
    (TransactionPart.inputCount.layout forms.inputCount.reads ++
    ((forms.unlocking.zipWith TransactionInput.layout tx.unlockingLengths).flatten ++
    (TransactionPart.outputCount.layout forms.outputCount.reads ++
    ((forms.locking.zipWith TransactionOutput.layout tx.lockingLengths).flatten ++
    [(.lockTime, 4)]))))

variable {tx : Transaction} {forms : Forms}

theorem follows_read (h : forms.All Form.Fits tx) (p : Nat) :
    ∃ back, read.Follows (tx.layout forms) p (tx.encodeIn forms) back := by
  have hversion := fun p => single_u32LE.follows .version (by simp)
    (fun _ _ h => u32_of_takes (v := tx.version) h) p
  have hlockTime := fun p => single_u32LE.follows .lockTime (by simp)
    (fun _ _ h => u32_of_takes (v := tx.lockTime) h) p
  have hunlocking : List.Forall₂ (fun form (input : TransactionInput) =>
      form.Fits input.unlocking.encode.length) forms.unlocking tx.inputs :=
    List.forall₂_map_right_iff.mp h.unlocking
  have hlocking : List.Forall₂ (fun form (output : TransactionOutput) =>
      form.Fits output.locking.encode.length) forms.locking tx.outputs :=
    List.forall₂_map_right_iff.mp h.locking
  have hinputs := follows_times (fun _ _ p h => TransactionInput.follows_read h p) hunlocking
  have houtputs := follows_times (fun _ _ p h => TransactionOutput.follows_read h p) hlocking
  simp only [encodeIn, layout, unlockingLengths, lockingLengths, List.append_assoc,
    List.zipWith_map_right]
  refine (follows_position p).exists_bind <| (hversion _).exists_bind <|
    (CompactSize.follows_read .inputCount h.inputCount _).exists_bind ?_
  rw [UInt64.toNat_ofNat_of_lt' h.inputCount.lt_size]
  obtain ⟨inputs, hinputs⟩ := hinputs _
  refine hinputs.exists_bind <|
    (CompactSize.follows_read .outputCount h.outputCount _).exists_bind ?_
  rw [UInt64.toNat_ofNat_of_lt' h.outputCount.lt_size]
  obtain ⟨outputs, houtputs⟩ := houtputs _
  exact houtputs.exists_bind
    ⟨_, (hlockTime _).last <| (follows_position _).last <| follows_pure _ _⟩

end Transaction

end Utxo
