import Utxo.Proofs.Secp256k1.Der

/-!
# The lenient form of a signature

The lenient reader accepts one grammar and nothing else: a sequence that starts with two integers,
each with any number of zeros in front. What stands behind the integers or behind the sequence does
not count.
-/

namespace Utxo.Secp256k1

open Bytes Reader

/-! ## The grammar -/

/-- A tag, the length of the content in one byte, and the content. -/
def IsFramed (tag : UInt8) (content b : Bytes) : Prop :=
  ∃ length : UInt8, length.toNat = content.length ∧ b = tag :: length :: content

/-- The bytes of a number from 1 up to, but not including, the order of the group. -/
structure IsLenientNumber (b : Bytes) (n : Nat) : Prop where
  ne_nil : b ≠ []
  value : toNatBE b = n
  pos : 1 ≤ n
  lt : n < groupOrder

/-- A sequence of two integers, with bytes that are ignored behind the integers and behind the
sequence. -/
def IsLenientDer (b : Bytes) (r s : Nat) : Prop :=
  ∃ R S first second ignored sequence behind,
    IsLenientNumber R r ∧ IsFramed 0x02 R first ∧ IsLenientNumber S s ∧ IsFramed 0x02 S second ∧
    IsFramed 0x30 (first ++ second ++ ignored) sequence ∧ b = sequence ++ behind

theorem IsLenientDer.append {b : Bytes} {r s : Nat} (h : IsLenientDer b r s) (more : Bytes) :
    IsLenientDer (b ++ more) r s := by
  obtain ⟨R, S, first, second, ignored, sequence, behind, hR, hfirst, hS, hsecond, hsequence,
    rfl⟩ := h
  exact ⟨R, S, first, second, ignored, sequence, behind ++ more, hR, hfirst, hS, hsecond, hsequence,
    List.append_assoc _ _ _⟩

namespace Signature

variable {part : Part} {c c' : Cursor} {b body : Bytes} {n r s : Nat} {signature : Signature}

/-! ## Integers -/

theorem ofNats_ok :
    ofNats r s = .ok signature ↔ signature.r.val = r ∧ signature.s.val = s := by
  constructor
  · intro h
    unfold ofNats at h
    split at h
    · split at h
      · rename_i found hfound
        cases h
        unfold ofScalars? at hfound
        split at hfound
        · split at hfound
          · cases hfound
            exact ⟨rfl, rfl⟩
          · cases hfound
        · cases hfound
      · cases h
    · cases h
  · rintro ⟨rfl, rfl⟩
    exact signature.ofNats_val

theorem isLenientNumber_scalar {v : Scalar} (hv : v ≠ 0) :
    IsLenientNumber b v.val ↔ b ≠ [] ∧ toNatBE b = v.val := by
  constructor
  · intro h
    exact ⟨h.ne_nil, h.value⟩
  · rintro ⟨hne, hvalue⟩
    exact ⟨hne, hvalue, Nat.pos_of_ne_zero (Fin.val_ne_zero_iff.mpr hv), v.isLt⟩

/-- The bound on the digits is no bound on scalars, which have room in 32 bytes. -/
theorem readInteger_scalar {v : Scalar} (hv : v ≠ 0) :
    (readInteger part).runFrom c = (.ok v.val, c') ↔
      ∃ number b, IsLenientNumber number v.val ∧ IsFramed 0x02 number b ∧ Takes c b c' := by
  simp only [readInteger_ok, isLenientNumber_scalar hv]
  constructor
  · rintro ⟨length, number, hlength, hne, -, hvalue, htakes⟩
    exact ⟨number, _, ⟨hne, hvalue⟩, ⟨length, hlength.symm, rfl⟩, htakes⟩
  · rintro ⟨number, -, ⟨hne, hvalue⟩, ⟨length, hlength, rfl⟩, htakes⟩
    have hdigits : (number.dropWhile (· == 0)).length ≤ 32 := by
      apply length_dropWhile_zero_le
      rw [hvalue]
      exact Nat.lt_trans v.isLt (by decide)
    exact ⟨length, number, hlength.symm, hne, hdigits, hvalue, htakes⟩

theorem readIntegers_ok : readIntegers.runFrom c = (.ok (r, s), c') ↔
    ∃ u, (readInteger .r).runFrom c = (.ok r, u) ∧ (readInteger .s).runFrom u = (.ok s, c') := by
  unfold readIntegers
  simp only [Stateful.runFrom_bind_ok, Stateful.runFrom_pure, Prod.mk.injEq, Except.ok.injEq]
  constructor
  · rintro ⟨r', u, hr, s', v, hs, ⟨rfl, rfl⟩, rfl⟩
    exact ⟨u, hr, hs⟩
  · rintro ⟨u, hr, hs⟩
    exact ⟨r, u, hr, s, c', hs, ⟨rfl, rfl⟩, rfl⟩

/-! ## Whole inputs -/

theorem exists_takes_start {a : Bytes} :
    (∃ c', Takes (.start b) a c') ↔ ∃ behind, b = a ++ behind := by
  constructor
  · rintro ⟨c', htakes⟩
    exact ⟨c'.rest, htakes.1⟩
  · rintro ⟨behind, rfl⟩
    exact ⟨_, takes_start a behind⟩

/-- Only the outcome of a reader counts, not where it stops. -/
theorem outcome_ok {α : Type} {reader : Reader SignatureError α} {a : α} :
    (reader.runFrom c).1 = .ok a ↔ ∃ c', reader.runFrom c = (.ok a, c') := by
  constructor
  · intro h
    exact ⟨(reader.runFrom c).2, Prod.ext h rfl⟩
  · rintro ⟨c', h⟩
    rw [h]

theorem readSequence_start : (readSequence.runFrom (.start b)).1 = .ok body ↔
    ∃ sequence behind, IsFramed 0x30 body sequence ∧ b = sequence ++ behind := by
  simp only [outcome_ok, readSequence_ok]
  constructor
  · rintro ⟨c', length, hlength, htakes⟩
    obtain ⟨behind, hb⟩ := exists_takes_start.mp ⟨c', htakes⟩
    exact ⟨_, behind, ⟨length, hlength.symm, rfl⟩, hb⟩
  · rintro ⟨-, behind, ⟨length, hlength, rfl⟩, hb⟩
    obtain ⟨c', htakes⟩ := exists_takes_start.mpr ⟨behind, hb⟩
    exact ⟨c', length, hlength.symm, htakes⟩

theorem readIntegers_start {r s : Scalar} (hr : r ≠ 0) (hs : s ≠ 0) :
    (readIntegers.runFrom (.start body)).1 = .ok (r.val, s.val) ↔
      ∃ R S first second ignored, IsLenientNumber R r.val ∧ IsFramed 0x02 R first ∧
        IsLenientNumber S s.val ∧ IsFramed 0x02 S second ∧ body = first ++ second ++ ignored := by
  simp only [outcome_ok, readIntegers_ok, readInteger_scalar hr, readInteger_scalar hs]
  constructor
  · rintro ⟨c', u, ⟨R, first, hR, hfirst, htakesR⟩, S, second, hS, hsecond, htakesS⟩
    obtain ⟨ignored, hbody⟩ := exists_takes_start.mp ⟨c', htakesR.trans htakesS⟩
    exact ⟨R, S, first, second, ignored, hR, hfirst, hS, hsecond, hbody⟩
  · rintro ⟨R, S, first, second, ignored, hR, hfirst, hS, hsecond, hbody⟩
    obtain ⟨c', htakes⟩ := exists_takes_start.mpr ⟨ignored, hbody⟩
    obtain ⟨u, htakesR, htakesS⟩ := htakes.split
    exact ⟨c', u, ⟨R, first, hR, hfirst, htakesR⟩, S, second, hS, hsecond, htakesS⟩

theorem ofDer_ok_iff :
    ofDer b = .ok signature ↔ IsLenientDer b signature.r.val signature.s.val := by
  have hintegers (body : Bytes) :=
    @readIntegers_start body _ _ signature.r_ne_zero signature.s_ne_zero
  unfold ofDer
  simp only [bind_ok, readSequence_start, Prod.exists, ofNats_ok]
  constructor
  · rintro ⟨body, ⟨sequence, behind, hsequence, rfl⟩, r, s, hread, rfl, rfl⟩
    obtain ⟨R, S, first, second, ignored, hR, hfirst, hS, hsecond, rfl⟩ :=
      (hintegers body).mp hread
    exact ⟨R, S, first, second, ignored, sequence, behind, hR, hfirst, hS, hsecond, hsequence, rfl⟩
  · rintro ⟨R, S, first, second, ignored, sequence, behind, hR, hfirst, hS, hsecond, hsequence,
      rfl⟩
    exact ⟨_, ⟨sequence, behind, hsequence, rfl⟩, _, _,
      (hintegers _).mpr ⟨R, S, first, second, ignored, hR, hfirst, hS, hsecond, rfl⟩, rfl, rfl⟩

/-- The bytes that are read as a signature are those of the lenient form, and the signature has the
two numbers that stand there. So bytes behind a signature do not change what is read. -/
theorem ofDer_lenient (b : Bytes) :
    (∀ r s, (∃ signature, ofDer b = .ok signature ∧ signature.r.val = r ∧ signature.s.val = s) ↔
      IsLenientDer b r s) ∧
    ∀ signature more, ofDer b = .ok signature → ofDer (b ++ more) = .ok signature := by
  constructor
  · intro r s
    constructor
    · rintro ⟨signature, h, rfl, rfl⟩
      exact ofDer_ok_iff.mp h
    · intro h
      obtain ⟨signature, hr, hs⟩ : ∃ signature : Signature,
          signature.r.val = r ∧ signature.s.val = s := by
        obtain ⟨R, S, -, -, -, -, -, hR, -, hS, -⟩ := h
        exact ⟨⟨⟨r, hR.lt⟩, ⟨s, hS.lt⟩, Fin.val_ne_zero_iff.mp (Nat.ne_of_gt hR.pos),
          Fin.val_ne_zero_iff.mp (Nat.ne_of_gt hS.pos)⟩, rfl, rfl⟩
      rw [← hr, ← hs] at h
      exact ⟨signature, ofDer_ok_iff.mpr h, hr, hs⟩
  · intro signature more h
    exact ofDer_ok_iff.mpr ((ofDer_ok_iff.mp h).append more)

/-- Zeros stand in front of R and bytes behind S, inside the sequence and outside of it. -/
theorem ofDer_lenient_padded :
    let b : Bytes := [0x30, 0x0a, 0x02, 0x03, 0x00, 0x00, 0x05, 0x02, 0x01, 0x07, 0xaa, 0xbb, 0xcc]
    ∃ signature, ofDer b = .ok signature ∧ signature.r.val = 5 ∧ signature.s.val = 7 ∧
      ofDer (b ++ [0x01, 0x02]) = .ok signature := by
  intro b
  have hform : IsLenientDer b 5 7 := by
    refine ⟨[0, 0, 5], [7], [0x02, 0x03, 0, 0, 5], [0x02, 0x01, 7], [0xaa, 0xbb], b.take 12, [0xcc],
      ?_, ⟨3, rfl, rfl⟩, ?_, ⟨1, rfl, rfl⟩, ⟨10, rfl, rfl⟩, rfl⟩ <;>
      constructor <;> decide
  obtain ⟨signature, hread, hr, hs⟩ := ((ofDer_lenient b).1 5 7).mpr hform
  exact ⟨signature, hread, hr, hs, (ofDer_lenient b).2 signature [0x01, 0x02] hread⟩

end Signature

end Utxo.Secp256k1
