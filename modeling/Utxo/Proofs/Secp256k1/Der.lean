import Utxo.Proofs.Bytes.BigEndian
import Utxo.Proofs.Bytes.Reading
import Utxo.Proofs.Secp256k1.LowS

/-!
# The strict form of a signature

In the strict form a number has one writing, and so has a pair of numbers. A signature is written in
it with the low sign of S, and the lenient reader finds in it what was written.
-/

namespace Utxo.Secp256k1

open Bytes

/-! ## Numbers -/

/-- The shortest bytes of a number whose highest bit, the sign, is clear. -/
structure IsDerNumber (b : Bytes) (n : Nat) : Prop where
  ne_nil : b ≠ []
  sign_clear : b.headD 0 < 0x80
  minimal : ∀ x rest, b = 0 :: x :: rest → 0x80 ≤ x
  value : toNatBE b = n

namespace IsDerNumber

variable {a b : Bytes} {n k : Nat}

/-- There is room for the number and for its sign. -/
theorem two_mul_lt (h : IsDerNumber b n) : 2 * n < capacity b.length := by
  obtain ⟨x, rest, rfl⟩ := List.exists_cons_of_ne_nil h.ne_nil
  have hsign : x.toNat + 1 ≤ 0x80 := h.sign_clear
  have hscale := Nat.mul_le_mul_left (capacity rest.length) hsign
  have hupper := (toNatBE_cons_bounds x rest).2
  rw [h.value] at hupper
  rw [List.length_cons, capacity]
  omega

/-- It takes no more bytes than give that room. -/
theorem length_le (h : IsDerNumber b n) (hk : 0 < k) (hroom : 2 * n < capacity k) :
    b.length ≤ k := by
  by_contra hlong
  obtain ⟨x, rest, rfl⟩ := List.exists_cons_of_ne_nil h.ne_nil
  rw [List.length_cons] at hlong
  have hmono : capacity k ≤ capacity rest.length := capacity_le_capacity (by omega)
  have hlower : capacity rest.length ≤ 2 * n := by
    -- A zero in front is there for the high bit behind it, which alone is half of the room.
    by_cases hx : x = 0
    · obtain ⟨y, rest', rfl⟩ : ∃ y rest', rest = y :: rest' := by
        apply List.exists_cons_of_ne_nil
        rintro rfl
        rw [List.length_nil] at hlong
        omega
      subst hx
      have hy : 0x80 ≤ y.toNat := h.minimal y rest' rfl
      have hscale := Nat.mul_le_mul_left (capacity rest'.length) hy
      have hbound := (toNatBE_cons_bounds y rest').1
      rw [← toNatBE_zero_cons, h.value] at hbound
      rw [List.length_cons, capacity]
      omega
    · have hpos : 0 < x.toNat := Nat.pos_of_ne_zero fun hzero => hx (UInt8.toNat_inj.mp hzero)
      have hscale := Nat.le_mul_of_pos_right (capacity rest.length) hpos
      have hbound := (toNatBE_cons_bounds x rest).1
      rw [h.value] at hbound
      omega
  omega

/-- Without needless zeros the bytes are right, once a zero has cleared the sign. -/
theorem padded {x : UInt8} {rest : Bytes} (hx : x ≠ 0) :
    IsDerNumber (if 0x80 ≤ x then 0 :: x :: rest else x :: rest) (toNatBE (x :: rest)) := by
  split
  · rename_i hhigh
    have hzero : (0 : UInt8) < 0x80 := by decide
    refine ⟨List.cons_ne_nil _ _, hzero, ?_, toNatBE_zero_cons _⟩
    intro y rest' h
    cases h
    exact hhigh
  · rename_i hlow
    refine ⟨List.cons_ne_nil _ _, UInt8.not_le.mp hlow, ?_, rfl⟩
    intro y rest' h
    cases h
    exact absurd rfl hx

theorem unique (ha : IsDerNumber a n) (hb : IsDerNumber b n) : a = b := by
  have hlength : a.length = b.length :=
    Nat.le_antisymm
      (ha.length_le (List.length_pos_iff.mpr hb.ne_nil) hb.two_mul_lt)
      (hb.length_le (List.length_pos_iff.mpr ha.ne_nil) ha.two_mul_lt)
  exact toNatBE_inj hlength (ha.value.trans hb.value.symm)

end IsDerNumber

/-! ## Elements -/

/-- A tag, the length of the content in one byte, in its short form, and the content. -/
def IsElement (tag : UInt8) (content b : Bytes) : Prop :=
  ∃ length : UInt8, length.toNat = content.length ∧ length < 0x80 ∧ b = tag :: length :: content

namespace IsElement

variable {tag : UInt8} {content b b' : Bytes}

theorem of_length_lt (h : content.length < 0x80) :
    IsElement tag content (tag :: UInt8.ofNat content.length :: content) := by
  have hlength : (UInt8.ofNat content.length).toNat = content.length :=
    UInt8.toNat_ofNat_of_lt' (Nat.lt_trans h (by decide))
  refine ⟨_, hlength, ?_, rfl⟩
  rw [UInt8.lt_iff_toNat_lt, hlength]
  exact h

theorem unique (h : IsElement tag content b) (h' : IsElement tag content b') : b = b' := by
  obtain ⟨length, hlength, -, rfl⟩ := h
  obtain ⟨length', hlength', -, rfl⟩ := h'
  rw [UInt8.toNat_inj.mp (hlength.trans hlength'.symm)]

theorem length_eq (h : IsElement tag content b) : b.length = content.length + 2 := by
  obtain ⟨-, -, -, rfl⟩ := h
  rfl

end IsElement

/-- The strict form of two numbers: a sequence of two integers, and nothing else. -/
def IsStrictDer (b : Bytes) (r s : Nat) : Prop :=
  ∃ R S first second, IsDerNumber R r ∧ IsDerNumber S s ∧ IsElement 0x02 R first ∧
    IsElement 0x02 S second ∧ IsElement 0x30 (first ++ second) b

namespace IsStrictDer

variable {b b' : Bytes} {r s : Nat}

theorem unique (h : IsStrictDer b r s) (h' : IsStrictDer b' r s) : b = b' := by
  obtain ⟨R, S, first, second, hR, hS, hfirst, hsecond, hb⟩ := h
  obtain ⟨R', S', first', second', hR', hS', hfirst', hsecond', hb'⟩ := h'
  obtain rfl := hR.unique hR'
  obtain rfl := hS.unique hS'
  obtain rfl := hfirst.unique hfirst'
  obtain rfl := hsecond.unique hsecond'
  exact hb.unique hb'

theorem length_bounds (h : IsStrictDer b r s) (hr : 2 * r < capacity 33)
    (hs : 2 * s < capacity 32) : 8 ≤ b.length ∧ b.length ≤ 71 := by
  obtain ⟨R, S, first, second, hR, hS, hfirst, hsecond, hb⟩ := h
  have hRpos := List.length_pos_iff.mpr hR.ne_nil
  have hSpos := List.length_pos_iff.mpr hS.ne_nil
  have hRle := hR.length_le (by decide) hr
  have hSle := hS.length_le (by decide) hs
  rw [hb.length_eq, List.length_append, hfirst.length_eq, hsecond.length_eq]
  omega

end IsStrictDer

/-! ## Reading -/

namespace Signature

section Reading

variable {α : Type} {part : Part} {c c' : Cursor} {tag length : UInt8} {b body : Bytes} {n : Nat}

theorem blame_byte_ok {word : Truncated → SignatureError} {x : UInt8} :
    (Reader.byte.blame word).runFrom c = (.ok x, c') ↔ Reader.Takes c [x] c' := by
  rw [Stateful.runFrom_blame_ok]
  exact ⟨Reader.byte_ok, Reader.byte_of_takes⟩

theorem blame_bytes_ok {word : Truncated → SignatureError} {k : Nat} :
    ((Reader.bytes k).blame word).runFrom c = (.ok b, c') ↔
      b.length = k ∧ Reader.Takes c b c' := by
  rw [Stateful.runFrom_blame_ok]
  exact ⟨Reader.bytes_ok, fun h => Reader.bytes_of_takes h.1 h.2⟩

/-- What stands behind a tag is read only if the tag is the right one. -/
theorem tag_ok {word : Truncated → SignatureError} {e : SignatureError}
    {behind : Reader SignatureError α} {a : α} :
    (do
      let found ← Reader.byte.blame word
      if found ≠ tag then throw e
      behind : Reader SignatureError α).runFrom c = (.ok a, c') ↔
      ∃ u, Reader.Takes c [tag] u ∧ behind.runFrom u = (.ok a, c') := by
  rw [Stateful.runFrom_bind_ok]
  constructor
  · rintro ⟨found, u, hfound, h⟩
    split at h
    · cases h
    · rename_i heq
      rw [Decidable.not_not.mp heq] at hfound
      exact ⟨u, blame_byte_ok.mp hfound, h⟩
  · rintro ⟨u, htag, h⟩
    refine ⟨tag, u, blame_byte_ok.mpr htag, ?_⟩
    rw [if_neg (not_not_intro rfl)]
    exact h

/-- The parts of an element are taken one after the other. -/
theorem takes_element : Reader.Takes c (tag :: length :: b) c' ↔
    ∃ u v, Reader.Takes c [tag] u ∧ Reader.Takes u [length] v ∧ Reader.Takes v b c' := by
  constructor
  · intro h
    obtain ⟨u, htag, h⟩ := Reader.Takes.split (a := [tag]) h
    obtain ⟨v, hlength, hcontent⟩ := Reader.Takes.split (a := [length]) h
    exact ⟨u, v, htag, hlength, hcontent⟩
  · rintro ⟨u, v, htag, hlength, hcontent⟩
    exact htag.trans (hlength.trans hcontent)

/-- An integer may have any number of zeros in front. -/
theorem readInteger_ok : (readInteger part).runFrom c = (.ok n, c') ↔
    ∃ length b, b.length = length.toNat ∧ b ≠ [] ∧ (b.dropWhile (· == 0)).length ≤ 32 ∧
      toNatBE b = n ∧ Reader.Takes c (0x02 :: length :: b) c' := by
  unfold readInteger
  rw [tag_ok]
  simp only [Stateful.runFrom_bind_ok, blame_byte_ok, blame_bytes_ok, takes_element]
  constructor
  · rintro ⟨u, htag, length, v, hlength, b, w, ⟨hb, hcontent⟩, h⟩
    split at h
    · cases h
    · rename_i hgood
      rw [List.isEmpty_iff, not_or, Nat.not_lt] at hgood
      cases h
      exact ⟨length, b, hb, hgood.1, hgood.2, rfl, u, v, htag, hlength, hcontent⟩
  · rintro ⟨length, b, hb, hne, hdigits, rfl, u, v, htag, hlength, hcontent⟩
    refine ⟨u, htag, length, v, hlength, b, c', ⟨hb, hcontent⟩, ?_⟩
    rw [if_neg (by rw [List.isEmpty_iff, not_or, Nat.not_lt]; exact ⟨hne, hdigits⟩)]
    rfl

theorem readSequence_ok : readSequence.runFrom c = (.ok body, c') ↔
    ∃ length, body.length = UInt8.toNat length ∧
      Reader.Takes c (0x30 :: length :: body) c' := by
  unfold readSequence
  rw [tag_ok]
  simp only [Stateful.runFrom_bind_ok, blame_byte_ok, blame_bytes_ok, takes_element]
  constructor
  · rintro ⟨u, htag, length, v, hlength, hbody, hcontent⟩
    exact ⟨length, hbody, u, v, htag, hlength, hcontent⟩
  · rintro ⟨length, hbody, u, v, htag, hlength, hcontent⟩
    exact ⟨u, htag, length, v, hlength, hbody, hcontent⟩

theorem readInteger_of_element (hnumber : IsDerNumber body n) (hlt : n < groupOrder)
    (helement : IsElement 0x02 body b) (htakes : Reader.Takes c b c') :
    (readInteger part).runFrom c = (.ok n, c') := by
  obtain ⟨length, hlength, -, rfl⟩ := helement
  have hdigits : (body.dropWhile (· == 0)).length ≤ 32 := by
    apply length_dropWhile_zero_le
    rw [hnumber.value]
    exact Nat.lt_trans hlt (by decide)
  exact readInteger_ok.mpr
    ⟨length, body, hlength.symm, hnumber.ne_nil, hdigits, hnumber.value, htakes⟩

end Reading

variable (signature : Signature)

theorem ofNats_val : ofNats signature.r.val signature.s.val = .ok signature := by
  rw [ofNats, dif_pos ⟨signature.r.isLt, signature.s.isLt⟩, ofScalars?,
    dif_pos signature.r_ne_zero, dif_pos signature.s_ne_zero]

/-- The lenient reader reads the strict form. -/
theorem ofDer_of_isStrictDer {b : Bytes} (h : IsStrictDer b signature.r.val signature.s.val) :
    ofDer b = .ok signature := by
  obtain ⟨R, S, first, second, hR, hS, hfirst, hsecond, length, hlength, -, rfl⟩ := h
  have hsequence : (readSequence.runFrom (.start (0x30 :: length :: (first ++ second)))).1 =
      .ok (first ++ second) := by
    have htakes := Reader.takes_start (0x30 :: length :: (first ++ second)) []
    rw [List.append_nil] at htakes
    rw [readSequence_ok.mpr ⟨length, hlength.symm, htakes⟩]
  have hintegers : (readIntegers.runFrom (.start (first ++ second))).1 =
      .ok (signature.r.val, signature.s.val) := by
    have htakes := Reader.takes_start (first ++ second) []
    rw [List.append_nil] at htakes
    obtain ⟨u, htakesR, htakesS⟩ := Reader.Takes.split htakes
    rw [readIntegers, Stateful.runFrom_bind_of_ok
      (readInteger_of_element hR signature.r.isLt hfirst htakesR), Stateful.runFrom_bind_of_ok
      (readInteger_of_element hS signature.s.isLt hsecond htakesS)]
    rfl
  rw [ofDer, hsequence]
  show (readIntegers.runFrom (.start (first ++ second))).1 >>= _ = _
  rw [hintegers]
  exact signature.ofNats_val

/-! ## Writing -/

/-- A number as it is written: without the zeros in front, but for one that clears the sign. -/
def derNumber (v : Scalar) : Bytes :=
  let digits := (Bytes.ofNatBE 32 v.val).dropWhile (· == 0)
  if 0x80 ≤ digits.headD 0 then 0 :: digits else digits

theorem derInteger_eq (v : Scalar) :
    derInteger v = 0x02 :: UInt8.ofNat (derNumber v).length :: derNumber v := rfl

theorem isDerNumber_derNumber {v : Scalar} (hv : v ≠ 0) : IsDerNumber (derNumber v) v.val := by
  have hvalue : toNatBE ((Bytes.ofNatBE 32 v.val).dropWhile (· == 0)) = v.val := by
    rw [toNatBE_dropWhile_zero, toNatBE_ofNatBE_of_lt (Nat.lt_trans v.isLt (by decide))]
  unfold derNumber
  obtain hnil | ⟨x, rest, hcons, hx⟩ := dropWhile_zero_cases (Bytes.ofNatBE 32 v.val)
  · rw [hnil] at hvalue
    exact absurd (Fin.ext hvalue.symm) hv
  · rw [hcons] at hvalue ⊢
    rw [← hvalue]
    exact IsDerNumber.padded hx

/-- A scalar and its sign take at most 33 bytes. -/
theorem two_mul_scalar_lt (v : Scalar) : 2 * v.val < capacity 33 := by
  have hlt := v.isLt
  have hroom : 2 * groupOrder ≤ capacity 33 := by decide
  omega

/-- A low S and its sign take at most 32. -/
theorem two_mul_lowS_lt : 2 * signature.lowS.s.val < capacity 32 := by
  have hroom : groupOrder < capacity 32 := by decide
  rw [val_lowS]
  omega

theorem length_derNumber_le {v : Scalar} (hv : v ≠ 0) : (derNumber v).length ≤ 33 :=
  (isDerNumber_derNumber hv).length_le (by decide) (two_mul_scalar_lt v)

theorem isElement_derInteger {v : Scalar} (hv : v ≠ 0) :
    IsElement 0x02 (derNumber v) (derInteger v) := by
  rw [derInteger_eq]
  exact IsElement.of_length_lt (Nat.lt_of_le_of_lt (length_derNumber_le hv) (by decide))

theorem isStrictDer_toDer :
    IsStrictDer signature.toDer signature.lowS.r.val signature.lowS.s.val := by
  have hr := signature.lowS.r_ne_zero
  have hs := signature.lowS.s_ne_zero
  have hfirst := isElement_derInteger hr
  have hsecond := isElement_derInteger hs
  refine ⟨_, _, _, _, isDerNumber_derNumber hr, isDerNumber_derNumber hs, hfirst, hsecond,
    IsElement.of_length_lt ?_⟩
  have hRle := length_derNumber_le hr
  have hSle := length_derNumber_le hs
  rw [List.length_append, hfirst.length_eq, hsecond.length_eq]
  omega

/-- What is written is the strict form of R and of the lower of the two signs of S, and is read as
these. So it is the same for both signs, as the answers of the verification are. -/
theorem toDer_strict_low (signature : Signature) :
    (∃ found, ofDer signature.toDer = .ok found ∧ found.r = signature.r ∧
      found.s.val = min signature.s.val (groupOrder - signature.s.val) ∧
      ∀ b, IsStrictDer b found.r.val found.s.val ↔ b = signature.toDer) ∧
    (8 ≤ signature.toDer.length ∧ signature.toDer.length ≤ 71) ∧
    signature.negated.r = signature.r ∧
    signature.negated.s.val = groupOrder - signature.s.val ∧
    signature.negated.toDer = signature.toDer ∧
    ∀ digest key, signature.negated.verify digest key = signature.verify digest key := by
  have hstrict := signature.isStrictDer_toDer
  have hread := ofDer_of_isStrictDer _ hstrict
  have hbounds :=
    hstrict.length_bounds (two_mul_scalar_lt signature.lowS.r) signature.two_mul_lowS_lt
  have hcanonical : ∀ b, IsStrictDer b signature.lowS.r.val signature.lowS.s.val ↔
      b = signature.toDer := by
    intro b
    constructor
    · intro h
      exact h.unique hstrict
    · rintro rfl
      exact hstrict
  exact ⟨⟨signature.lowS, hread, signature.r_lowS, signature.val_lowS, hcanonical⟩, hbounds, rfl,
    signature.val_negated, signature.toDer_negated, signature.verify_negated⟩

/-- Both bounds on the length are reached. -/
example :
    ((ofNats 1 1).map (·.toDer.length)).toOption = some 8 ∧
      ((ofNats (2 ^ 255) (2 ^ 254)).map (·.toDer.length)).toOption = some 71 := by
  decide +kernel

end Signature

end Utxo.Secp256k1
