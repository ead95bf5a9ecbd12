import Utxo.Bytes.CompactSize
import Utxo.Bytes.Range

/-!
# Reading what is written

A reader that finds the bytes of an item at its cursor returns the item and stops behind the bytes,
whatever comes before and after.
-/

namespace Utxo

theorem Bytes.toNatLE_ofNatLE_of_lt {width n : Nat} (h : n < capacity width) :
    toNatLE (ofNatLE width n) = n := by
  rw [toNatLE_ofNatLE, Nat.mod_eq_of_lt h]

theorem Bytes.toNatBE_ofNatBE_of_lt {width n : Nat} (h : n < capacity width) :
    toNatBE (ofNatBE width n) = n := by
  rw [toNatBE, ofNatBE, List.reverse_reverse, toNatLE_ofNatLE_of_lt h]

namespace Reader

variable {c c' : Cursor} {b : Bytes}

/-- Bytes in two parts are taken one part after the other. -/
theorem Takes.split {a : Bytes} (h : Takes c (a ++ b) c') :
    ∃ u, Takes c a u ∧ Takes u b c' := by
  refine ⟨⟨c.position + a.length, b ++ c'.rest⟩, ⟨?_, rfl⟩, ⟨rfl, ?_⟩⟩
  · rw [h.1, List.append_assoc]
  · rw [h.2, List.length_append, Nat.add_assoc]

theorem takes_nil_iff : Takes c [] c' ↔ c' = c := by
  constructor
  · rintro ⟨hrest, hposition⟩
    rcases c with ⟨position, rest⟩
    rcases c' with ⟨position', rest'⟩
    simp_all
  · rintro rfl
    exact ⟨rfl, rfl⟩

theorem takes_start (b rest : Bytes) : Takes (.start (b ++ rest)) b ⟨b.length, rest⟩ := by
  simp [Takes, Cursor.start]

/-! ## Bytes and numbers -/

theorem fixed_of_takes {n : Nat} (hn : b.length = n) (h : Takes c b c') :
    (fixed n).runFrom c = (.ok ⟨b, hn⟩, c') := by
  subst hn
  have htake : c.rest.take b.length = b := by rw [h.1, List.take_left]
  have hdrop : c.rest.drop b.length = c'.rest := by rw [h.1, List.drop_left]
  unfold fixed
  rw [Stateful.runFrom_bind_of_ok (Stateful.runFrom_get c), dif_pos (by rw [htake])]
  simp only [Stateful.runFrom_bind, Stateful.runFrom_set, Stateful.runFrom_pure, htake, hdrop,
    ← h.2]

theorem bytes_of_takes {n : Nat} (hn : b.length = n) (h : Takes c b c') :
    (bytes n).runFrom c = (.ok b, c') := by
  rw [bytes, Stateful.runFrom_bind_of_ok (fixed_of_takes hn h), Stateful.runFrom_pure]

theorem byte_of_takes {v : UInt8} (h : Takes c [v] c') : byte.runFrom c = (.ok v, c') := by
  have hbytes : (bytes 1).runFrom c = (.ok [v], c') := bytes_of_takes rfl h
  rw [byte, Stateful.runFrom_bind_of_ok hbytes]
  rfl

theorem u16LE_of_takes {n : Nat} (hn : n < UInt16.size) (h : Takes c (Bytes.ofNatLE 2 n) c') :
    u16LE.runFrom c = (.ok (UInt16.ofNat n), c') := by
  rw [u16LE, Stateful.runFrom_bind_of_ok (bytes_of_takes (Bytes.length_ofNatLE 2 n) h),
    Stateful.runFrom_pure, Bytes.toNatLE_ofNatLE_of_lt hn]

theorem u32LE_of_takes {n : Nat} (hn : n < UInt32.size) (h : Takes c (Bytes.ofNatLE 4 n) c') :
    u32LE.runFrom c = (.ok (UInt32.ofNat n), c') := by
  rw [u32LE, Stateful.runFrom_bind_of_ok (bytes_of_takes (Bytes.length_ofNatLE 4 n) h),
    Stateful.runFrom_pure, Bytes.toNatLE_ofNatLE_of_lt hn]

theorem u64LE_of_takes {n : Nat} (hn : n < UInt64.size) (h : Takes c (Bytes.ofNatLE 8 n) c') :
    u64LE.runFrom c = (.ok (UInt64.ofNat n), c') := by
  rw [u64LE, Stateful.runFrom_bind_of_ok (bytes_of_takes (Bytes.length_ofNatLE 8 n) h),
    Stateful.runFrom_pure, Bytes.toNatLE_ofNatLE_of_lt hn]

theorem u16BE_of_takes {n : Nat} (hn : n < UInt16.size) (h : Takes c (Bytes.ofNatBE 2 n) c') :
    u16BE.runFrom c = (.ok (UInt16.ofNat n), c') := by
  rw [u16BE, Stateful.runFrom_bind_of_ok (bytes_of_takes (Bytes.length_ofNatBE 2 n) h),
    Stateful.runFrom_pure, Bytes.toNatBE_ofNatBE_of_lt hn]

theorem u32BE_of_takes {n : Nat} (hn : n < UInt32.size) (h : Takes c (Bytes.ofNatBE 4 n) c') :
    u32BE.runFrom c = (.ok (UInt32.ofNat n), c') := by
  rw [u32BE, Stateful.runFrom_bind_of_ok (bytes_of_takes (Bytes.length_ofNatBE 4 n) h),
    Stateful.runFrom_pure, Bytes.toNatBE_ofNatBE_of_lt hn]

theorem u16_of_takes {v : UInt16} (h : Takes c (Bytes.ofUInt16 v) c') :
    u16LE.runFrom c = (.ok v, c') := by
  rw [u16LE_of_takes v.toNat_lt h, UInt16.ofNat_toNat]

theorem u32_of_takes {v : UInt32} (h : Takes c (Bytes.ofUInt32 v) c') :
    u32LE.runFrom c = (.ok v, c') := by
  rw [u32LE_of_takes v.toNat_lt h, UInt32.ofNat_toNat]

theorem u64_of_takes {v : UInt64} (h : Takes c (Bytes.ofUInt64 v) c') :
    u64LE.runFrom c = (.ok v, c') := by
  rw [u64LE_of_takes v.toNat_lt h, UInt64.ofNat_toNat]

/-- As many bytes as a number has are the bytes of that number. -/
theorem takes_ofNatLE {n : Nat} (h : (bytes n).runFrom c = (.ok b, c')) :
    Bytes.toNatLE b < Bytes.capacity n ∧ Takes c (Bytes.ofNatLE n (Bytes.toNatLE b)) c' := by
  obtain ⟨hlen, htakes⟩ := bytes_ok h
  have hlt := Bytes.toNatLE_lt b
  have hb := Bytes.ofNatLE_toNatLE b
  rw [hlen] at hlt hb
  exact ⟨hlt, by rwa [hb]⟩

theorem u16LE_ok {v : UInt16} (h : u16LE.runFrom c = (.ok v, c')) :
    Takes c (Bytes.ofNatLE 2 v.toNat) c' := by
  obtain ⟨b, u, hb, h⟩ := Stateful.runFrom_bind_ok.mp h
  cases h
  obtain ⟨hlt, htakes⟩ := takes_ofNatLE hb
  rwa [UInt16.toNat_ofNat_of_lt' hlt]

theorem u32LE_ok {v : UInt32} (h : u32LE.runFrom c = (.ok v, c')) :
    Takes c (Bytes.ofUInt32 v) c' := by
  obtain ⟨b, u, hb, h⟩ := Stateful.runFrom_bind_ok.mp h
  cases h
  obtain ⟨hlt, htakes⟩ := takes_ofNatLE hb
  rwa [Bytes.ofUInt32, UInt32.toNat_ofNat_of_lt' hlt]

theorem u64LE_ok {v : UInt64} (h : u64LE.runFrom c = (.ok v, c')) :
    Takes c (Bytes.ofUInt64 v) c' := by
  obtain ⟨b, u, hb, h⟩ := Stateful.runFrom_bind_ok.mp h
  cases h
  obtain ⟨hlt, htakes⟩ := takes_ofNatLE hb
  rwa [Bytes.ofUInt64, UInt64.toNat_ofNat_of_lt' hlt]

/-! ## Items in a row -/

section Rows

variable {ε α : Type} {reader : Reader ε α} {items : List α}

/-- One item after the other is read between two cursors. -/
def Reads (reader : Reader ε α) : Cursor → List α → Cursor → Prop
  | c, [], c' => c' = c
  | c, item :: items, c' => ∃ u, reader.runFrom c = (.ok item, u) ∧ Reads reader u items c'

theorem times_ok {n : Nat} :
    (times reader n).runFrom c = (.ok items, c') ↔ items.length = n ∧ Reads reader c items c' := by
  induction n generalizing c items with
  | zero => cases items <;> simp [times, Reads, eq_comm]
  | succ n ih =>
    rw [times]
    simp only [Stateful.runFrom_bind_ok, Stateful.runFrom_pure, Prod.mk.injEq, Except.ok.injEq]
    constructor
    · rintro ⟨item, u, hitem, rest, v, hrest, rfl, rfl⟩
      obtain ⟨hlength, hrest⟩ := ih.mp hrest
      exact ⟨by rw [List.length_cons, hlength], u, hitem, hrest⟩
    · rintro ⟨hlength, hreads⟩
      cases items with
      | nil => simp at hlength
      | cons item items =>
        obtain ⟨u, hitem, hrest⟩ := hreads
        exact ⟨item, u, hitem, items, c', ih.mpr ⟨by simpa using hlength, hrest⟩, rfl, rfl⟩

theorem Reads.forall_mem {p : α → Prop}
    (hread : ∀ c item c', reader.runFrom c = (.ok item, c') → p item)
    (h : Reads reader c items c') : ∀ item ∈ items, p item := by
  induction items generalizing c with
  | nil => simp
  | cons item items ih =>
    obtain ⟨u, hitem, hrest⟩ := h
    simpa using ⟨hread _ _ _ hitem, ih hrest⟩

end Rows

end Reader

/-! ## Places in a source -/

/-- What a cursor has left is the end of the source, from its position on. -/
def Cursor.StandsIn (source : Bytes) (c : Cursor) : Prop :=
  ∃ consumed : Bytes, consumed.length = c.position ∧ source = consumed ++ c.rest

section Places

open Reader

variable {source b : Bytes} {c c' : Cursor}

theorem Cursor.standsIn_start (source : Bytes) : (Cursor.start source).StandsIn source :=
  ⟨[], rfl, rfl⟩

theorem Reader.Takes.length_range (h : Takes c b c') :
    (⟨c.position, c'.position⟩ : ByteRange).length = b.length := by
  rw [ByteRange.length, h.2, Nat.add_sub_cancel_left]

theorem Cursor.StandsIn.takes (h : c.StandsIn source) (htakes : Takes c b c') :
    c'.StandsIn source ∧ (⟨c.position, c'.position⟩ : ByteRange).slice? source = some b := by
  obtain ⟨consumed, hlength, rfl⟩ := h
  refine ⟨⟨consumed ++ b, ?_, ?_⟩, ?_⟩
  · rw [htakes.2, List.length_append, hlength]
  · rw [htakes.1, List.append_assoc]
  · have hstart : c.position ≤ c'.position := by simp [htakes.2]
    have hstop : c'.position ≤ (consumed ++ c.rest).length := by
      simp [htakes.1, htakes.2, hlength]
    unfold ByteRange.slice?
    rw [htakes.length_range, if_pos ⟨hstart, hstop⟩, ← hlength, List.drop_left, htakes.1,
      List.take_left]

theorem Cursor.StandsIn.drop (h : c.StandsIn source) : source.drop c.position = c.rest := by
  obtain ⟨consumed, hlength, rfl⟩ := h
  rw [← hlength, List.drop_left]

end Places

end Utxo
