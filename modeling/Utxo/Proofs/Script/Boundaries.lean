import Utxo.Proofs.Script.Lossless

/-!
# Between two operations

Decoding can be cut between two operations: what stands in front is decoded as if nothing came
behind it, and what comes behind as if nothing stood in front.
-/

namespace Utxo.Script

/-- Behind operations that can be read, decoding starts anew. -/
theorem decode_behind {operations : List Operation}
    (h : ∀ op ∈ operations, Operation.read.Finds op.encode op) (more : Bytes) :
    decode (operations.flatMap Operation.encode ++ more) =
      ⟨operations ++ (decode more).operations, (decode more).fault?⟩ := by
  have hmore : (decode more).operations.flatMap Operation.encode ++ (decode more).tail = more :=
    encode_decode more
  have hall : ∀ op ∈ operations ++ (decode more).operations, Operation.read.Finds op.encode op := by
    intro op hop
    rcases List.mem_append.mp hop with hmem | hmem
    · exact h op hmem
    · exact finds_of_mem_decode op hmem
  have hbytes : operations.flatMap Operation.encode ++ more =
      (operations ++ (decode more).operations).flatMap Operation.encode ++ (decode more).tail := by
    rw [List.flatMap_append, List.append_assoc, hmore]
  rw [hbytes]
  exact decode_eq_iff.mpr
    ⟨_, reads_of_finds hall (Reader.takes_start _ _), stopsAt_tail more _⟩

theorem flatMap_encode_of_sound {b : Bytes} (h : (decode b).fault? = none) :
    (decode b).operations.flatMap Operation.encode = b := by
  have hencode := encode_decode b
  rwa [encode, h, Option.elim_none, List.append_nil] at hencode

/-- Bytes that are whole operations do not change what comes behind them: the operations of both
follow each other, and the fault is that of the second part. Any first operations of a script are
such bytes. -/
theorem decode_splits (a b : Bytes) :
    ((decode a).fault? = none →
      (decode (a ++ b)).operations = (decode a).operations ++ (decode b).operations ∧
      (decode (a ++ b)).fault? = (decode b).fault?) ∧
    ∀ k, decode (((decode b).operations.take k).flatMap Operation.encode) =
      ⟨(decode b).operations.take k, none⟩ := by
  refine ⟨fun ha => ?_, fun k => ?_⟩
  · have hsplit := decode_behind (finds_of_mem_decode (b := a)) b
    rw [flatMap_encode_of_sound ha] at hsplit
    rw [hsplit]
    exact ⟨rfl, rfl⟩
  · exact decode_of_finds fun op hop => finds_of_mem_decode op (List.mem_of_mem_take hop)

/-- In front is a push of two bytes, and behind it `1` and a push that lacks four of its bytes. -/
theorem decode_splits_cut :
    let a : Bytes := [0x02, 0xaa, 0xbb]
    let b : Bytes := [0x51, 0x05, 0x01]
    let push : Operation := .push .direct [0xaa, 0xbb] (by decide)
    (decode a).fault? = none ∧
      (decode (a ++ b)).operations = [push, .code 0x51] ∧
      (decode (a ++ b)).fault? = some ⟨⟨5, 1⟩, [0x05, 0x01]⟩ := by
  intro a b push
  have ha : decode a = ⟨[push], none⟩ := by decide +kernel
  have hb : decode b = ⟨[.code 0x51], some ⟨⟨5, 1⟩, [0x05, 0x01]⟩⟩ := by decide +kernel
  have hsound : (decode a).fault? = none := by rw [ha]
  obtain ⟨hoperations, hfault⟩ := (decode_splits a b).1 hsound
  rw [ha, hb] at hoperations
  rw [hb] at hfault
  exact ⟨hsound, hoperations, hfault⟩

end Utxo.Script
