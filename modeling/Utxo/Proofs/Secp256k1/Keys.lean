import Utxo.Proofs.Bytes.Reading
import Utxo.Proofs.ScriptClass.Spender
import Utxo.Proofs.Secp256k1.Field

/-!
# The forms of a public key

A key is read in three forms: with both coordinates, with the first one and the parity of the other,
and with the first one alone, which stands for the even one of the two points over it. The first two
are those that a key is written in.
-/

namespace Utxo.Secp256k1.PublicKey

/-- The form without a parity. Keys are never written in it. -/
def toCompact (key : PublicKey) : Bytes := 0x05 :: Bytes.ofNatBE 32 key.x.val

/-- The bytes that a key is read from. -/
inductive IsForm (key : PublicKey) : Bytes → Prop where
  | compressed : key.IsForm key.toCompressed
  | uncompressed : key.IsForm key.toUncompressed
  | compact (heven : key.y.val % 2 = 0) : key.IsForm key.toCompact

section Reading

variable {key : PublicKey} {odd : Bool}

/-! ## Coordinates -/

theorem coordinate?_eq_some {b : Bytes} (hlength : b.length = 32) {v : Coordinate} :
    coordinate? b = some v ↔ b = Bytes.ofNatBE 32 v.val := by
  simp only [coordinate?]
  constructor
  · intro h
    split at h
    · cases h
      rw [← hlength, Bytes.ofNatBE_toNatBE]
    · cases h
  · rintro rfl
    have hroom : v.val < Bytes.capacity 32 := Nat.lt_trans v.isLt (by decide)
    simp only [Bytes.toNatBE_ofNatBE_of_lt hroom]
    exact dif_pos v.isLt

theorem isOnCurve_iff {x y : Coordinate} : isOnCurve x y = true ↔ y * y = cubic x := beq_iff_eq

/-- Of the two signs of a root one is odd and one even, so that a parity names one of them. -/
theorem eq_chosen_iff {root y : Coordinate} (hroot : root ≠ 0) :
    y = (if (root.val % 2 == 1) == odd then root else -root) ↔
      (y = root ∨ y = -root) ∧ (y.val % 2 = 1 ↔ odd = true) := by
  have hneg := odd_neg hroot
  have hparity : ((root.val % 2 == 1) == odd) = true ↔ (root.val % 2 = 1 ↔ odd = true) := by
    rw [beq_iff_eq, Bool.eq_iff_iff, beq_iff_eq]
  split
  · rename_i hsame
    rw [hparity] at hsame
    constructor
    · rintro rfl
      exact ⟨.inl rfl, hsame⟩
    · rintro ⟨rfl | rfl, hwanted⟩
      · rfl
      · tauto
  · rename_i hother
    rw [hparity] at hother
    constructor
    · rintro rfl
      exact ⟨.inr rfl, by tauto⟩
    · rintro ⟨rfl | rfl, hwanted⟩
      · exact absurd hwanted hother
      · rfl

theorem decompress?_eq_some {x : Coordinate} : decompress? odd x = some key ↔
    key.x = x ∧ isOnCurve key.x key.y = true ∧ (key.y.val % 2 = 1 ↔ odd = true) := by
  have hread : decompress? odd x = (squareRoot? (cubic x)).map fun root =>
      ⟨x, if (root.val % 2 == 1) == odd then root else -root⟩ := by
    unfold decompress?
    cases squareRoot? (cubic x) <;> rfl
  have hne {root : Coordinate} (hroot : squareRoot? (cubic x) = some root) : root ≠ 0 := by
    rintro rfl
    exact cubic_ne_zero x (squareRoot?_eq_some.mp hroot).2.symm
  rw [hread, Option.map_eq_some_iff, isOnCurve_iff]
  constructor
  · rintro ⟨root, hroot, rfl⟩
    obtain ⟨hsign, hparity⟩ := (eq_chosen_iff (hne hroot)).mp rfl
    exact ⟨rfl, mul_self_eq_iff.mpr ⟨root, hroot, hsign⟩, hparity⟩
  · rintro ⟨rfl, hsquare, hparity⟩
    obtain ⟨root, hroot, hsign⟩ := mul_self_eq_iff.mp hsquare
    refine ⟨root, hroot, ?_⟩
    rw [← (eq_chosen_iff (hne hroot)).mpr ⟨hsign, hparity⟩]

/-! ## One coordinate or both -/

/-- The point over a first coordinate that has the wanted parity. -/
theorem ofOne_eq_some {b : Bytes} (hlength : b.length = 32) :
    (coordinate? b).bind (decompress? odd) = some key ↔
      isOnCurve key.x key.y = true ∧ b = Bytes.ofNatBE 32 key.x.val ∧
        (key.y.val % 2 = 1 ↔ odd = true) := by
  simp only [Option.bind_eq_some_iff, coordinate?_eq_some hlength, decompress?_eq_some]
  constructor
  · rintro ⟨x, rfl, rfl, hcurve, hparity⟩
    exact ⟨hcurve, rfl, hparity⟩
  · rintro ⟨hcurve, rfl, hparity⟩
    exact ⟨key.x, rfl, rfl, hcurve, hparity⟩

theorem ofBoth_eq_some {b : Bytes} (hlength : b.length = 64) :
    (do
      let x ← coordinate? (b.take 32)
      let y ← coordinate? (b.drop 32)
      if isOnCurve x y then some ⟨x, y⟩ else none) = some key ↔
      isOnCurve key.x key.y = true ∧
        b = Bytes.ofNatBE 32 key.x.val ++ Bytes.ofNatBE 32 key.y.val := by
  have htake : (b.take 32).length = 32 := by rw [List.length_take, hlength]; rfl
  have hdrop : (b.drop 32).length = 32 := by rw [List.length_drop, hlength]
  simp only [Option.bind_eq_bind, Option.bind_eq_some_iff, coordinate?_eq_some htake,
    coordinate?_eq_some hdrop, Option.ite_none_right_eq_some, Option.some.injEq]
  constructor
  · rintro ⟨x, hx, y, hy, hcurve, rfl⟩
    exact ⟨hcurve, by rw [← hx, ← hy, List.take_append_drop]⟩
  · rintro ⟨hcurve, rfl⟩
    have hwidth := Bytes.length_ofNatBE 32 key.x.val
    exact ⟨key.x, List.take_left' hwidth, key.y, List.drop_left' hwidth, hcurve, rfl⟩

/-! ## Tags -/

/-- Tag and length decide how the rest is read. -/
theorem ofBytes_cons_ok_iff {tag : UInt8} {rest : Bytes} :
    ofBytes (tag :: rest) = .ok key ↔
      rest.length = 32 ∧ (tag = 0x02 ∨ tag = 0x05) ∧
        (coordinate? rest).bind (decompress? false) = some key ∨
      rest.length = 32 ∧ tag = 0x03 ∧ (coordinate? rest).bind (decompress? true) = some key ∨
      rest.length = 64 ∧ tag = 0x04 ∧ (do
        let x ← coordinate? (rest.take 32)
        let y ← coordinate? (rest.drop 32)
        if isOnCurve x y then some ⟨x, y⟩ else none) = some key := by
  constructor
  · intro h
    unfold ofBytes at h
    dsimp only at h
    split at h
    · cases h
    · rename_i found hfound _
      cases h
      -- Each pattern of tag and length is one of the cases listed.
      split at hfound <;> simp_all
    · cases h
  · rintro (⟨hlength, rfl | rfl, hread⟩ | ⟨hlength, rfl, hread⟩ | ⟨hlength, rfl, hread⟩)
    · simp [ofBytes, hlength, hread]
    · simp [ofBytes, hlength, hread]
    · simp [ofBytes, hlength, hread]
    · simp only [ofBytes, List.length_cons, hlength, hread]

theorem IsForm.of_ofBytes {b : Bytes} (h : ofBytes b = .ok key) :
    isOnCurve key.x key.y = true ∧ key.IsForm b := by
  rcases b with _ | ⟨tag, rest⟩
  · cases h
  rcases ofBytes_cons_ok_iff.mp h with
    ⟨hlength, htag, hread⟩ | ⟨hlength, rfl, hread⟩ | ⟨hlength, rfl, hread⟩
  · obtain ⟨hcurve, rfl, hparity⟩ := (ofOne_eq_some hlength).mp hread
    have heven : ¬key.y.val % 2 = 1 := fun hodd => absurd (hparity.mp hodd) (by decide)
    refine ⟨hcurve, ?_⟩
    rcases htag with rfl | rfl
    · have hform : key.IsForm key.toCompressed := .compressed
      rwa [toCompressed, if_neg heven] at hform
    · exact .compact (Nat.mod_two_ne_one.mp heven)
  · obtain ⟨hcurve, rfl, hparity⟩ := (ofOne_eq_some hlength).mp hread
    have hform : key.IsForm key.toCompressed := .compressed
    rw [toCompressed, if_pos (hparity.mpr rfl)] at hform
    exact ⟨hcurve, hform⟩
  · obtain ⟨hcurve, rfl⟩ := (ofBoth_eq_some hlength).mp hread
    exact ⟨hcurve, .uncompressed⟩

theorem IsForm.ofBytes_eq {b : Bytes} (h : key.IsForm b) (hcurve : isOnCurve key.x key.y = true) :
    ofBytes b = .ok key := by
  have hwidth := Bytes.length_ofNatBE 32 key.x.val
  cases h with
  | compressed =>
    refine ofBytes_cons_ok_iff.mpr ?_
    by_cases hodd : key.y.val % 2 = 1
    · rw [if_pos hodd]
      exact .inr (.inl ⟨hwidth, rfl, (ofOne_eq_some hwidth).mpr ⟨hcurve, rfl, by simp [hodd]⟩⟩)
    · rw [if_neg hodd]
      exact .inl ⟨hwidth, .inl rfl, (ofOne_eq_some hwidth).mpr ⟨hcurve, rfl, by simp [hodd]⟩⟩
  | uncompressed =>
    have hboth : (Bytes.ofNatBE 32 key.x.val ++ Bytes.ofNatBE 32 key.y.val).length = 64 := by
      rw [List.length_append, hwidth, Bytes.length_ofNatBE]
    exact ofBytes_cons_ok_iff.mpr
      (.inr (.inr ⟨hboth, rfl, (ofBoth_eq_some hboth).mpr ⟨hcurve, rfl⟩⟩))
  | compact heven =>
    exact ofBytes_cons_ok_iff.mpr
      (.inl ⟨hwidth, .inr rfl, (ofOne_eq_some hwidth).mpr ⟨hcurve, rfl, by simp [heven]⟩⟩)

/-- The bytes of a point of the curve, in any of three forms, are read as it. -/
theorem ofBytes_ok_iff {b : Bytes} :
    ofBytes b = .ok key ↔ isOnCurve key.x key.y = true ∧ key.IsForm b :=
  ⟨IsForm.of_ofBytes, fun h => h.2.ofBytes_eq h.1⟩

theorem toCompact_ne_written :
    ¬(key.toCompact = key.toCompressed ∨ key.toCompact = key.toUncompressed) := by
  rintro (h | h)
  · unfold toCompact toCompressed at h
    split at h
    · exact absurd (List.cons.inj h).1 (by decide)
    · exact absurd (List.cons.inj h).1 (by decide)
  · exact absurd (List.cons.inj h).1 (by decide)

/-- Only the compact form is read and not written. -/
theorem read_written_iff {b : Bytes} :
    (∀ key, ofBytes b = .ok key → b = key.toCompressed ∨ b = key.toUncompressed) ↔
      ¬∃ key : PublicKey, isOnCurve key.x key.y = true ∧ key.y.val % 2 = 0 ∧ b = key.toCompact := by
  constructor
  · rintro hwritten ⟨key, hcurve, heven, rfl⟩
    exact toCompact_ne_written (hwritten key ((IsForm.compact heven).ofBytes_eq hcurve))
  · intro hnot key hread
    obtain ⟨hcurve, hform⟩ := ofBytes_ok_iff.mp hread
    cases hform with
    | compressed => exact .inl rfl
    | uncompressed => exact .inr rfl
    | compact heven => exact absurd ⟨key, hcurve, heven, rfl⟩ hnot

end Reading

end Utxo.Secp256k1.PublicKey

namespace Utxo

open Secp256k1

/-! ## Signature checks -/

/-- Bytes are read as a key just if they are one of its three forms. Two of these are what keys are
written as, so that what is read was written unless it is the compact form. `CHECKSIG` finds a
signature good under the forms of a key that verifies it, and under no other bytes. -/
theorem Secp256k1.PublicKey.read_iff_form (b : Bytes) :
    (∀ key, ofBytes b = .ok key ↔ isOnCurve key.x key.y = true ∧ key.IsForm b) ∧
    ((∀ key, ofBytes b = .ok key → b = key.toCompressed ∨ b = key.toUncompressed) ↔
      ¬∃ key : PublicKey, isOnCurve key.x key.y = true ∧ key.y.val % 2 = 0 ∧ b = key.toCompact) ∧
    ∀ (s : Spend) (setting : Setting) (t : Thread) (full : Bytes) (rest : Stack),
      (∃ u, (Exec.command { setting with check? := some s.check } .checkSig).reached
          { t with main := b :: full :: rest } = .ok u ∧
        u.main = ScriptNumber.ofBool true :: rest) ↔
      ∃ key digest parsed signature flag, isOnCurve key.x key.y = true ∧ key.IsForm b ∧
        full = signature ++ [flag] ∧ s.signatureHash setting.input ⟨flag⟩ = .ok digest ∧
        Signature.ofDer signature = .ok parsed ∧ parsed.verify digest.val key = true := by
  refine ⟨fun key => ofBytes_ok_iff, read_written_iff, ?_⟩
  intro s setting t full rest
  rw [Exec.checkSig_pushes_true rfl rfl]
  constructor
  · rintro ⟨signature, flag, rfl, hgood⟩
    obtain ⟨digest, parsed, key, hdigest, hparsed, hkey, hverify⟩ := Spend.check_eq_true.mp hgood
    obtain ⟨hcurve, hform⟩ := ofBytes_ok_iff.mp hkey
    exact ⟨key, digest, parsed, signature, flag, hcurve, hform, rfl, hdigest, hparsed, hverify⟩
  · rintro ⟨key, digest, parsed, signature, flag, hcurve, hform, rfl, hdigest, hparsed, hverify⟩
    exact ⟨signature, flag, rfl, Spend.check_eq_true.mpr
      ⟨digest, parsed, key, hdigest, hparsed, hform.ofBytes_eq hcurve, hverify⟩⟩

/-- A key in the form that is never written spends an output that is paid to it. There is no output
for the flags to cover, so that one is the number that is signed. -/
theorem Secp256k1.PublicKey.compact_key_spends :
    let b : Bytes := [0x05, 0x8f, 0x06, 0xc8, 0xf4, 0x82, 0x03, 0x84, 0x4a, 0x2f, 0x2b, 0xb4, 0x56,
      0x20, 0x3e, 0x57, 0x37, 0xbf, 0x6a, 0x91, 0x9e, 0xdf, 0x0d, 0x8f, 0xe2, 0x57, 0xce, 0xd4,
      0xfb, 0xbe, 0x50, 0x21, 0x9f]
    let key : PublicKey :=
      { x := Fin.ofNat _ 0x8f06c8f48203844a2f2bb456203e5737bf6a919edf0d8fe257ced4fbbe50219f
        y := Fin.ofNat _ 0xef0f12f1da3dbcdc5bcebb23879b750676a8137e60fa6ec452fb3be0f6028e12 }
    let input : TransactionInput :=
      { outpoint := ⟨⟨List.replicate 32 7, rfl⟩, 0⟩
        unlocking := .ofOperations
          [.push .direct [0x30, 0x06, 0x02, 0x01, 0x01, 0x02, 0x01, 0x02, 0x03] (by decide)] }
    let spent : TransactionOutput :=
      { satoshis := 5000
        locking := .ofOperations [.push .direct b (by decide), .code Opcode.checkSig] }
    ofBytes b = .ok key ∧ b ≠ key.toCompressed ∧ b ≠ key.toUncompressed ∧
      Transaction.verifyInput { inputs := [input] } 0 spent = .ok () :=
  ⟨by decide +kernel, by decide +kernel, by decide +kernel, by decide +kernel⟩

end Utxo
