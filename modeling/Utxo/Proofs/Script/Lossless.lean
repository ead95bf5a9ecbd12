import Utxo.Proofs.Bytes.Local
import Utxo.Proofs.Script.Decoding
import Utxo.Proofs.Transaction.Size

/-!
# A fault is a cut

Decoding reads one operation after the other, up to the end or to an operation that is cut off.
Every operation can be read from its own bytes alone, and a cut operation from a longer script.
-/

namespace Utxo

open Reader

namespace Operation

theorem local_readData (form : LengthForm) (n : Nat) (fits : form.Fits n) :
    Local (readData form n fits) := (local_fixed n).bind fun _ => local_pure _

theorem local_read : Local read := by
  unfold read
  refine local_byte.bind fun op => ?_
  split
  · exact local_readData _ _ _
  split
  · exact local_byte.bind fun n => local_readData _ _ _
  split
  · exact local_u16BE.bind fun n => local_readData _ _ _
  split
  · exact local_u32BE.bind fun n => local_readData _ _ _
  · exact local_pure _

/-- What is read is read again wherever its encoding stands. -/
theorem finds_encode {c c' : Cursor} {op : Operation} (h : read.runFrom c = (.ok op, c')) :
    read.Finds op.encode op := by
  obtain ⟨b, htakes, hfinds⟩ := local_read.ok h
  rwa [htakes.bytes_eq (read_ok h)] at hfinds

end Operation

namespace Script

/-! ## Steps of decoding -/

/-- At `stop` there is no operation to be read, for the reason that a script gives. -/
def StopsAt (stop : Cursor) : Option ScriptFault → Prop
  | none => stop.rest = []
  | some fault => stop.rest ≠ [] ∧ fault.remainder = stop.rest ∧
      ∃ c, Operation.read.runFrom stop = (.error fault.reason, c)

theorem decodeFrom_of_read {seen : List Operation} {c c' : Cursor} {op : Operation}
    (h : Operation.read.runFrom c = (.ok op, c')) :
    decodeFrom seen c = decodeFrom (op :: seen) c' := by
  have hend : ¬c.atEnd = true := by
    have hlt := Operation.length_lt_of_read h
    rw [Cursor.atEnd, List.isEmpty_iff_length_eq_zero]
    omega
  rw [decodeFrom, if_neg hend]
  split
  · rename_i hread
    rw [h] at hread
    cases hread
    rfl
  · rename_i hread
    simp [h] at hread

theorem decodeFrom_of_stopsAt {seen : List Operation} {c : Cursor} {fault? : Option ScriptFault}
    (h : StopsAt c fault?) : decodeFrom seen c = ⟨seen.reverse, fault?⟩ := by
  cases fault? with
  | none =>
    have hend : c.atEnd = true := List.isEmpty_iff.mpr h
    rw [decodeFrom, if_pos hend]
  | some fault =>
    obtain ⟨hne, hremainder, c', hread⟩ := h
    have hend : ¬c.atEnd = true := fun hend => hne (List.isEmpty_iff.mp hend)
    rw [decodeFrom, if_neg hend]
    split
    · rename_i hread'
      simp [hread] at hread'
    · rename_i hread'
      rw [hread] at hread'
      cases hread'
      rw [← hremainder]

theorem exists_stop (c : Cursor) : ∃ operations stop fault?,
    Reads Operation.read c operations stop ∧ StopsAt stop fault? := by
  induction hn : c.rest.length using Nat.strongRecOn generalizing c with
  | _ n ih =>
    subst hn
    by_cases hend : c.rest = []
    · exact ⟨[], c, none, rfl, hend⟩
    rcases hread : Operation.read.runFrom c with ⟨reason | op, c'⟩
    · exact ⟨[], c, some ⟨reason, c.rest⟩, rfl, hend, rfl, c', hread⟩
    · obtain ⟨operations, stop, fault?, hreads, hstop⟩ :=
        ih _ (Operation.length_lt_of_read hread) c' rfl
      exact ⟨op :: operations, stop, fault?, ⟨c', hread, hreads⟩, hstop⟩

theorem decodeFrom_of_reads {seen operations : List Operation} {c stop : Cursor}
    {fault? : Option ScriptFault} (h : Reads Operation.read c operations stop)
    (hstop : StopsAt stop fault?) :
    decodeFrom seen c = ⟨seen.reverse ++ operations, fault?⟩ := by
  induction operations generalizing seen c with
  | nil =>
    cases h
    rw [decodeFrom_of_stopsAt hstop, List.append_nil]
  | cons op operations ih =>
    obtain ⟨u, hop, hrest⟩ := h
    rw [decodeFrom_of_read hop, ih hrest, List.reverse_cons, List.append_assoc]
    rfl

/-- What a script is decoded to: the operations that can be read one after the other, and what
stops the reading. -/
theorem decode_eq_iff {b : Bytes} {s : Script} :
    decode b = s ↔
      ∃ stop, Reads Operation.read (.start b) s.operations stop ∧ StopsAt stop s.fault? := by
  constructor
  · rintro rfl
    obtain ⟨operations, stop, fault?, hreads, hstop⟩ := exists_stop (.start b)
    have hdecode : decode b = ⟨operations, fault?⟩ := decodeFrom_of_reads hreads hstop
    rw [hdecode]
    exact ⟨stop, hreads, hstop⟩
  · rintro ⟨stop, hreads, hstop⟩
    exact decodeFrom_of_reads hreads hstop

theorem reads_of_finds {operations : List Operation}
    (h : ∀ op ∈ operations, Operation.read.Finds op.encode op) {c c' : Cursor}
    (htakes : Takes c (operations.flatMap Operation.encode) c') :
    Reads Operation.read c operations c' := by
  induction operations generalizing c with
  | nil => exact takes_nil_iff.mp htakes
  | cons op operations ih =>
    rw [List.forall_mem_cons] at h
    obtain ⟨u, hop, hrest⟩ := Takes.split htakes
    exact ⟨u, h.1 hop, ih h.2 hrest⟩

/-- Operations that are read from their own bytes are the operations of all their bytes. -/
theorem decode_of_finds {operations : List Operation}
    (h : ∀ op ∈ operations, Operation.read.Finds op.encode op) :
    decode (operations.flatMap Operation.encode) = ⟨operations, none⟩ := by
  have htakes := takes_start (operations.flatMap Operation.encode) []
  rw [List.append_nil] at htakes
  exact decode_eq_iff.mpr ⟨_, reads_of_finds h htakes, rfl⟩

theorem finds_of_mem_decode {b : Bytes} :
    ∀ op ∈ (decode b).operations, Operation.read.Finds op.encode op := by
  obtain ⟨stop, hreads, -⟩ := decode_eq_iff.mp (rfl : decode b = decode b)
  exact hreads.forall_mem fun _ _ _ => Operation.finds_encode

/-! ## Faults -/

/-- What is left behind the operations: the remainder of a fault, or nothing. -/
def tail (s : Script) : Bytes := s.fault?.elim [] (·.remainder)

theorem stopsAt_tail (b : Bytes) (position : Nat) :
    StopsAt ⟨position, (decode b).tail⟩ (decode b).fault? := by
  obtain ⟨stop, -, hstop⟩ := decode_eq_iff.mp (rfl : decode b = decode b)
  rw [tail]
  cases hfault : (decode b).fault? with
  | none => rfl
  | some fault =>
    rw [hfault] at hstop
    obtain ⟨hne, hremainder, c, hread⟩ := hstop
    refine ⟨?_, rfl, Operation.local_read.error hread _ hremainder⟩
    rw [Option.elim_some, hremainder]
    exact hne

theorem encode_of_fault {b : Bytes} {fault : ScriptFault} (h : (decode b).fault? = some fault) :
    (decode b).operations.flatMap Operation.encode ++ fault.remainder = b := by
  have hb := encode_decode b
  rw [encode, h] at hb
  exact hb

theorem decode_remainder {b : Bytes} {fault : ScriptFault} (h : (decode b).fault? = some fault) :
    fault.remainder ≠ [] ∧ decode fault.remainder = ⟨[], some fault⟩ := by
  have hstop := stopsAt_tail b 0
  rw [tail, h] at hstop
  exact ⟨hstop.1, decode_eq_iff.mpr ⟨_, rfl, hstop⟩⟩

theorem exists_completion {b : Bytes} {fault : ScriptFault} (h : (decode b).fault? = some fault) :
    ∃ more op, decode (b ++ more) = ⟨(decode b).operations ++ [op], none⟩ := by
  have hstop := stopsAt_tail b 0
  rw [tail, h] at hstop
  obtain ⟨-, -, c, hread⟩ := hstop
  obtain ⟨more, op, hmore⟩ := Operation.local_read.completes hread
  have hop : op.encode = fault.remainder ++ more := by
    have htakes := takes_start (fault.remainder ++ more) []
    exact (Operation.read_ok (hmore htakes)).bytes_eq htakes
  have hb := encode_of_fault h
  refine ⟨more, op, ?_⟩
  have hall : b ++ more = ((decode b).operations ++ [op]).flatMap Operation.encode := by
    rw [List.flatMap_append, List.flatMap_singleton, hop, ← List.append_assoc, hb]
  rw [hall]
  apply decode_of_finds
  intro op' hop'
  rcases List.mem_append.mp hop' with hmem | hmem
  · exact finds_of_mem_decode op' hmem
  · rw [List.mem_singleton.mp hmem, hop]
    exact hmore

/-- Nothing is lost in decoding, and every operation that it finds is read back from its own bytes,
of which there are some. A fault is about the last bytes: they are decoded to the same fault, and
with the right bytes behind them they are one more operation. -/
theorem decode_lossless (b : Bytes) :
    (decode b).encode = b ∧ (decode b).length = b.length ∧
    (∀ op ∈ (decode b).operations, op.encode ≠ [] ∧
      Operation.read.runFrom (.start op.encode) = (.ok op, ⟨op.encode.length, []⟩)) ∧
    ∀ fault, (decode b).fault? = some fault →
      fault.remainder ≠ [] ∧ fault.remainder <:+ b ∧ decode fault.remainder = ⟨[], some fault⟩ ∧
      ∃ more op, decode (b ++ more) = ⟨(decode b).operations ++ [op], none⟩ := by
  refine ⟨encode_decode b, ?_, ?_, ?_⟩
  · rw [← length_encode, encode_decode]
  · intro op hop
    have htakes := takes_start op.encode []
    rw [List.append_nil] at htakes
    exact ⟨List.ne_nil_of_length_pos op.encode_length_pos, finds_of_mem_decode op hop htakes⟩
  · intro fault hfault
    obtain ⟨hne, hremainder⟩ := decode_remainder hfault
    exact ⟨hne, ⟨_, encode_of_fault hfault⟩, hremainder, exists_completion hfault⟩

/-- The first operation takes a longer form than it needs, and the length in the second one is cut
off in its middle. -/
theorem decode_lossless_cut :
    let b : Bytes := [0x4c, 0x01, 0xaa, 0x4d, 0x01]
    let op : Operation := .push .one [0xaa] (by decide)
    let fault : ScriptFault := ⟨⟨2, 1⟩, [0x4d, 0x01]⟩
    decode b = ⟨[op], some fault⟩ ∧
      Operation.read.runFrom (.start [0x4c, 0x01, 0xaa]) = (.ok op, ⟨3, []⟩) ∧
      decode fault.remainder = ⟨[], some fault⟩ ∧
      ∃ more cut, decode (b ++ more) = ⟨[op, cut], none⟩ := by
  intro b op fault
  have hdecode : decode b = ⟨[op], some fault⟩ := by decide +kernel
  obtain ⟨-, -, hoperations, hfault⟩ := decode_lossless b
  rw [hdecode] at hoperations hfault
  obtain ⟨-, hread⟩ := hoperations op (List.mem_singleton_self op)
  obtain ⟨-, -, hremainder, hmore⟩ := hfault fault rfl
  exact ⟨hdecode, hread, hremainder, hmore⟩

end Script

end Utxo
