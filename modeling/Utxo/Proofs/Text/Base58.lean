import Utxo.Address
import Utxo.Proofs.Text.Radix
import Utxo.Proofs.Text.Utf8
import Utxo.Stateful

/-!
# Base 58 and addresses

In base 58 a byte string has one text, and only that text is read as the byte string. With the
checksum and the length of an address this makes two addresses for each hash, one for each network.
-/

namespace Utxo.Base58

variable {b : Bytes} {c : Char} {v index : Nat} {ds : List Nat} {text : String}

/-! ## Digits -/

theorem digit_eq_getElem (h : v < alphabet.length) : digit v = alphabet[v] := by
  rw [digit, List.getD_eq_getElem?_getD, List.getElem?_eq_getElem h, Option.getD_some]

theorem value?_eq_some_iff : value? c = some v ↔ v < 58 ∧ digit v = c := by
  have hlength : alphabet.length = 58 := by decide
  have hnodup : alphabet.Nodup := by decide
  rw [value?, List.idxOf?_eq_some_iff]
  constructor
  · rintro ⟨hv, hc, -⟩
    exact ⟨hlength ▸ hv, (digit_eq_getElem hv).trans hc⟩
  · rintro ⟨hv, hc⟩
    rw [← hlength] at hv
    rw [digit_eq_getElem hv] at hc
    refine ⟨hv, hc, fun j hj hsame => ?_⟩
    exact Nat.ne_of_lt hj (hnodup.getElem_inj_iff.mp (hsame.trans hc.symm))

theorem digit_ascii (h : v < 58) : (digit v).toNat < 0x80 := by
  have hall : ∀ v < 58, (digit v).toNat < 0x80 := by decide
  exact hall v h

theorem values_cons_ok {x : UInt8} : values index (x :: b) = .ok ds ↔
    x < 0x80 ∧ ∃ v vs, value? (Char.ofNat x.toNat) = some v ∧ values (index + 1) b = .ok vs ∧
      ds = v :: vs := by
  rw [values]
  split
  · rename_i hx
    exact ⟨nofun, fun h => absurd h.1 (UInt8.not_lt.mpr hx)⟩
  · rename_i hx
    rw [and_iff_right (UInt8.not_le.mp hx)]
    cases hvalue : value? (Char.ofNat x.toNat) with
    | none => exact ⟨nofun, nofun⟩
    | some v =>
      constructor
      · intro h
        obtain ⟨vs, hvs, hds⟩ := bind_ok.mp h
        cases hds
        exact ⟨v, vs, rfl, hvs, rfl⟩
      · rintro ⟨v', vs, hv', hvs, rfl⟩
        cases hv'
        exact bind_ok.mpr ⟨vs, hvs, rfl⟩

theorem values_ok : values index b = .ok ds ↔
    (∀ x ∈ b, x < 0x80) ∧ (∀ v ∈ ds, v < 58) ∧
      (b.map fun x => Char.ofNat x.toNat) = ds.map digit := by
  induction b generalizing index ds with
  | nil =>
    rw [values, Except.ok.injEq, List.map_nil]
    constructor
    · rintro rfl
      exact ⟨nofun, nofun, rfl⟩
    · rintro ⟨-, -, hchars⟩
      exact (List.map_eq_nil_iff.mp hchars.symm).symm
  | cons x rest ih =>
    rw [values_cons_ok]
    constructor
    · rintro ⟨hx, v, vs, hv, hvs, rfl⟩
      obtain ⟨hascii, hlt, hchars⟩ := ih.mp hvs
      obtain ⟨hv, hdigit⟩ := value?_eq_some_iff.mp hv
      rw [List.forall_mem_cons, List.forall_mem_cons, List.map_cons, List.map_cons, hdigit, hchars]
      exact ⟨⟨hx, hascii⟩, ⟨hv, hlt⟩, rfl⟩
    · rintro ⟨hascii, hlt, hchars⟩
      rw [List.map_cons, eq_comm] at hchars
      obtain ⟨v, vs, rfl, hdigit, hrest⟩ := List.map_eq_cons_iff.mp hchars
      rw [List.forall_mem_cons] at hascii hlt
      exact ⟨hascii.1, v, vs, value?_eq_some_iff.mpr ⟨hlt.1, hdigit⟩,
        ih.mpr ⟨hascii.2, hlt.2, hrest.symm⟩, rfl⟩

/-- Texts and rows of digits are the same. -/
theorem values_encode_ok : values 0 (Utf8.encode text) = .ok ds ↔
    (∀ v ∈ ds, v < 58) ∧ text = String.ofList (ds.map digit) := by
  rw [values_ok]
  constructor
  · rintro ⟨hascii, hlt, hchars⟩
    rw [← hchars, ← Utf8.toList_of_ascii hascii, String.ofList_toList]
    exact ⟨hlt, rfl⟩
  · rintro ⟨hlt, rfl⟩
    have hascii : ∀ c ∈ ds.map digit, c.toNat < 0x80 := by
      rw [List.forall_mem_map]
      exact fun v hv => digit_ascii (hlt v hv)
    rw [Utf8.encode_ofList_ascii hascii, List.forall_mem_map, List.map_map]
    refine ⟨fun c hc => (Utf8.byte_of_ascii (hascii c hc)).1, hlt, ?_⟩
    exact (List.map_congr_left fun c hc => (Utf8.byte_of_ascii (hascii c hc)).2).trans
      (List.map_id' _)

/-! ## Plain -/

theorem toNatLE_eq_value (b : Bytes) : Bytes.toNatLE b = Radix.value 256 (b.map UInt8.toNat) := by
  induction b with
  | nil => rfl
  | cons x rest ih => rw [Bytes.toNatLE, List.map_cons, Radix.value, ih]

theorem zeros_toNat (b : Bytes) :
    Radix.zeros (b.map UInt8.toNat) = (b.takeWhile (· == 0)).length := by
  have hzero : ((· == 0) ∘ UInt8.toNat : UInt8 → Bool) = (· == 0) := by
    funext x
    rw [Function.comp_apply, Bool.eq_iff_iff, beq_iff_eq, beq_iff_eq]
    exact UInt8.toNat_inj (b := 0)
  rw [Radix.zeros, List.takeWhile_map, List.length_map, hzero]

/-- Bytes are the digits of their number in base 256. -/
theorem encode_eq_row (b : Bytes) : encode b =
    String.ofList ((Radix.row 58 (Radix.zeros (b.map UInt8.toNat))
      (Radix.value 256 (b.map UInt8.toNat).reverse)).map digit) := by
  have hnumber : Bytes.toNatBE b = Radix.value 256 (b.map UInt8.toNat).reverse := by
    rw [Bytes.toNatBE, toNatLE_eq_value, List.map_reverse]
  rw [zeros_toNat, ← hnumber, Radix.row, List.map_append, List.map_replicate]
  rfl

theorem map_ofNat_eq_iff (h : ∀ d ∈ ds, d < 256) :
    ds.map UInt8.ofNat = b ↔ ds = b.map UInt8.toNat := by
  constructor
  · rintro rfl
    have hback : ∀ d ∈ ds, (UInt8.toNat ∘ UInt8.ofNat) d = d :=
      fun d hd => UInt8.toNat_ofNat_of_lt' (h d hd)
    rw [List.map_map, List.map_congr_left hback, List.map_id']
  · rintro rfl
    rw [List.map_map]
    exact List.map_id'' (fun x => UInt8.ofNat_toNat) b

theorem decode_ok : decode text = .ok b ↔
    ∃ ds, (∀ v ∈ ds, v < 58) ∧ text = String.ofList (ds.map digit) ∧
      Radix.row 256 (Radix.zeros ds) (Radix.value 58 ds.reverse) = b.map UInt8.toNat := by
  rw [decode, bind_ok]
  simp only [values_encode_ok, and_assoc]
  refine exists_congr fun ds => and_congr_right fun _ => and_congr_right fun _ => ?_
  rw [← map_ofNat_eq_iff fun d hd => Radix.lt_of_mem_row (by decide) hd, Radix.row,
    List.map_append, List.map_replicate, List.map_reverse]
  exact iff_of_eq (Except.ok.injEq _ _)

/-- A text is read as the bytes that it is the text of. Rows of bytes and rows of digits have the
same numbers and zeros, and either determines the row. -/
theorem decode_eq_ok_iff : decode text = .ok b ↔ text = encode b := by
  have hbytes : ∀ d ∈ b.map UInt8.toNat, d < 256 := by
    rw [List.forall_mem_map]
    exact fun x _ => x.toNat_lt
  rw [decode_ok, encode_eq_row]
  constructor
  · rintro ⟨ds, hlt, rfl, hrow⟩
    obtain ⟨hzeros, hvalue⟩ := (Radix.row_eq_iff (by decide) hbytes).mp hrow
    rw [hzeros, hvalue, Radix.row_zeros_value (by decide) hlt]
  · rintro rfl
    refine ⟨_, fun v hv => Radix.lt_of_mem_row (by decide) hv, rfl, ?_⟩
    rw [Radix.zeros_row (by decide), Radix.value_row (by decide),
      Radix.row_zeros_value (by decide) hbytes]

/-! ## Checked -/

@[simp] theorem length_checksum (payload : Bytes) : (checksum payload).length = 4 := by
  rw [checksum, List.length_take, (Digest.sha256d payload).property]
  rfl

theorem decodeChecked_ok_iff {payload : Bytes} :
    decodeChecked text = .ok payload ↔ text = encodeChecked payload := by
  have hlength := length_checksum payload
  rw [encodeChecked, ← decode_eq_ok_iff, decodeChecked, bind_ok]
  constructor
  · rintro ⟨b, hb, h⟩
    split at h
    · cases h
    · simp only at h
      split at h
      · rename_i hchecksum
        cases h
        rw [← hchecksum, List.take_append_drop, hb]
      · cases h
  · intro h
    refine ⟨_, h, ?_⟩
    have hlong : (payload ++ checksum payload).length = payload.length + 4 := by
      rw [List.length_append, hlength]
    rw [if_neg (by omega), hlong, Nat.add_sub_cancel, List.take_left, List.drop_left]
    exact if_pos rfl

end Utxo.Base58

namespace Utxo.Address

theorem ofVersion?_eq_some_iff {v : UInt8} {network : Network} :
    Network.ofVersion? v = some network ↔ v = network.version := by
  constructor
  · intro h
    rw [Network.ofVersion?] at h
    split at h
    · cases h
      assumption
    · split at h
      · cases h
        assumption
      · cases h
  · rintro rfl
    cases network <;> rfl

/-- The hash is in the addresses of the two networks, and in no other text. -/
theorem decode_ok_iff {address : String} {hash : FixedBytes 20} :
    decode address = .ok hash ↔ ∃ network, address = encode network hash := by
  simp only [encode, ← Base58.decodeChecked_ok_iff]
  rw [decode]
  constructor
  · intro h
    split at h
    · cases h
    · rename_i payload hpayload
      split at h
      · rename_i hlength
        obtain ⟨v, tail, rfl⟩ := List.exists_cons_of_length_eq_add_one hlength
        simp only [List.headD_cons] at h
        split at h
        · cases h
        · rename_i network hnetwork
          cases h
          rw [ofVersion?_eq_some_iff] at hnetwork
          exact ⟨network, hnetwork ▸ hpayload⟩
      · cases h
  · rintro ⟨network, hpayload⟩
    rw [hpayload]
    have hlength : (network.version :: hash.val).length = 21 := by
      rw [List.length_cons, hash.property]
    simp only [hlength, List.headD_cons, ofVersion?_eq_some_iff.mpr rfl]
    rfl

/-- Reading an address and writing it are inverse to each other, up to the network, and so are
reading and writing checked base 58. -/
theorem decode_encode_iff (address text : String) (hash : FixedBytes 20) (payload : Bytes) :
    (decode address = .ok hash ↔
      address = encode .mainnet hash ∨ address = encode .testnet hash) ∧
    (Base58.decodeChecked text = .ok payload ↔ text = Base58.encodeChecked payload) := by
  refine ⟨?_, Base58.decodeChecked_ok_iff⟩
  rw [decode_ok_iff]
  constructor
  · rintro ⟨_ | _, h⟩
    · exact .inl h
    · exact .inr h
  · rintro (h | h)
    · exact ⟨.mainnet, h⟩
    · exact ⟨.testnet, h⟩

end Utxo.Address
