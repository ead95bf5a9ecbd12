import Mathlib.Algebra.GroupWithZero.Nat
import Mathlib.Data.List.Forall2
import Utxo.Inspection.Fee

/-!
# Fees are exact

Totals are added up in 64 bits, and given up at the first part that is missing and at the first sum
that is too large. Still they are what sums of natural numbers are, whatever the order of the parts.
-/

namespace Utxo

/-! ## Sums and differences -/

section

variable {a b c : UInt64}

theorem checkedAdd_eq_some : checkedAdd a b = some c ↔ a.toNat + b.toNat = c.toNat := by
  have hc := c.toNat_lt
  unfold checkedAdd
  split
  · rename_i hlt
    rw [Option.some.injEq, ← UInt64.toNat_inj, UInt64.toNat_add, Nat.mod_eq_of_lt hlt]
  · rename_i hge
    refine ⟨nofun, fun h => absurd ?_ hge⟩
    rw [h]
    exact hc

theorem exists_checkedAdd (h : a.toNat + b.toNat < UInt64.size) : ∃ c, checkedAdd a b = some c :=
  ⟨a + b, if_pos h⟩

theorem checkedSub_eq_some : checkedSub a b = some c ↔ a.toNat = b.toNat + c.toNat := by
  unfold checkedSub
  split
  · rename_i hle
    have hle' := UInt64.le_iff_toNat_le.mp hle
    rw [Option.some.injEq, ← UInt64.toNat_inj, UInt64.toNat_sub_of_le a b hle]
    omega
  · rename_i hlt
    refine ⟨nofun, fun h => absurd ?_ hlt⟩
    rw [UInt64.le_iff_toNat_le]
    omega

end

/-- What is told as a number of 64 bits is there just if such a number has room for it. -/
theorem isSome_iff_of_eq_some {total? : Option UInt64} {P : Nat → Prop}
    (h : ∀ total, total? = some total ↔ P total.toNat) :
    total?.isSome ↔ ∃ n, n < UInt64.size ∧ P n := by
  rw [Option.isSome_iff_exists]
  constructor
  · rintro ⟨total, htotal⟩
    exact ⟨total.toNat, total.toNat_lt, (h total).mp htotal⟩
  · rintro ⟨n, hlt, hn⟩
    refine ⟨UInt64.ofNat n, (h _).mpr ?_⟩
    rwa [UInt64.toNat_ofNat_of_lt' hlt]

/-! ## Values of outputs -/

/-- The value of outputs together, without a bound. -/
def valueOf (outputs : List TransactionOutput) : Nat :=
  (outputs.map (·.satoshis.toNat)).sum

@[simp] theorem valueOf_nil : valueOf [] = 0 := rfl

@[simp] theorem valueOf_cons (output : TransactionOutput) (outputs : List TransactionOutput) :
    valueOf (output :: outputs) = output.satoshis.toNat + valueOf outputs := rfl

/-- Adding up outputs that are looked up one after the other gives their value, if all are found and
their value is a number of 64 bits. -/
theorem foldlM_checkedAdd {α : Type} {find : α → Option TransactionOutput} {keys : List α}
    {start total : UInt64} :
    keys.foldlM (fun sum key => do checkedAdd sum (← find key).satoshis) start = some total ↔
      ∃ outputs, List.Forall₂ (fun key output => find key = some output) keys outputs ∧
        start.toNat + valueOf outputs = total.toNat := by
  induction keys generalizing start with
  | nil => simp [UInt64.toNat_inj]
  | cons key keys ih =>
    rw [List.foldlM_cons, Option.bind_eq_bind, Option.bind_eq_some_iff]
    constructor
    · rintro ⟨sum, hstep, hrest⟩
      obtain ⟨output, hfind, hsum⟩ := Option.bind_eq_some_iff.mp hstep
      obtain ⟨outputs, houtputs, htotal⟩ := ih.mp hrest
      rw [← checkedAdd_eq_some.mp hsum, Nat.add_assoc] at htotal
      exact ⟨output :: outputs, .cons hfind houtputs, htotal⟩
    · rintro ⟨_, hall, htotal⟩
      cases hall with
      | @cons _ output _ outputs hfind houtputs =>
        rw [valueOf_cons, ← Nat.add_assoc] at htotal
        -- A sum on the way is no larger than the one at the end.
        have hlt : start.toNat + output.satoshis.toNat < UInt64.size :=
          Nat.lt_of_le_of_lt (htotal ▸ Nat.le_add_right _ _) total.toNat_lt
        obtain ⟨sum, hsum⟩ := exists_checkedAdd hlt
        refine ⟨sum, Option.bind_eq_some_iff.mpr ⟨output, hfind, hsum⟩, ih.mpr ?_⟩
        exact ⟨outputs, houtputs, by rw [← checkedAdd_eq_some.mp hsum, htotal]⟩

/-! ## What goes in and what comes out -/

namespace Transaction

variable {tx : Transaction} {spent : List (Option TransactionOutput)}
  {outputs : List TransactionOutput} {total : UInt64}

/-- The output that every input spends is known, and these are the outputs, in the order of the
inputs. -/
structure Spends (tx : Transaction) (spent : List (Option TransactionOutput))
    (outputs : List TransactionOutput) : Prop where
  length : outputs.length = tx.inputs.length
  known : ∀ (i : Nat) output, outputs[i]? = some output → spent[i]? = some (some output)

theorem spends_iff : tx.Spends spent outputs ↔
    List.Forall₂ (fun i output => spent[i]?.join = some output)
      (List.range tx.inputs.length) outputs := by
  simp only [List.forall₂_iff_get, List.length_range, List.get_eq_getElem, List.getElem_range,
    Option.join_eq_some_iff]
  constructor
  · intro h
    exact ⟨h.length.symm, fun i _ hi => h.known i _ (List.getElem?_eq_getElem hi)⟩
  · rintro ⟨hlength, hknown⟩
    refine ⟨hlength.symm, fun i output houtput => ?_⟩
    obtain ⟨hi, rfl⟩ := List.getElem?_eq_some_iff.mp houtput
    exact hknown i (hlength ▸ hi) hi

theorem inputTotal?_eq_some : tx.inputTotal? spent = some total ↔
    ∃ outputs, tx.Spends spent outputs ∧ valueOf outputs = total.toNat := by
  have hfold : tx.inputTotal? spent = (List.range tx.inputs.length).foldlM
      (fun sum i => do checkedAdd sum (← spent[i]?.join).satoshis) 0 := by
    unfold inputTotal?
    congr 1
    funext sum i
    cases spent[i]? <;> rfl
  rw [hfold, foldlM_checkedAdd]
  simp [spends_iff]

theorem outputTotal?_eq_some : tx.outputTotal? = some total ↔
    valueOf tx.outputs = total.toNat := by
  have hfold : tx.outputTotal? = tx.outputs.foldlM
      (fun sum output => do checkedAdd sum (← some output).satoshis) 0 := rfl
  rw [hfold, foldlM_checkedAdd]
  simp

theorem isSome_inputTotal? : (tx.inputTotal? spent).isSome ↔
    ∃ outputs, tx.Spends spent outputs ∧ valueOf outputs < UInt64.size := by
  have htotal : ∀ total, tx.inputTotal? spent = some total ↔
      ∃ outputs, tx.Spends spent outputs ∧ valueOf outputs = total.toNat :=
    fun _ => inputTotal?_eq_some
  rw [isSome_iff_of_eq_some
    (P := fun n => ∃ outputs, tx.Spends spent outputs ∧ valueOf outputs = n) htotal]
  constructor
  · rintro ⟨_, hlt, outputs, hspends, rfl⟩
    exact ⟨outputs, hspends, hlt⟩
  · rintro ⟨outputs, hspends, hlt⟩
    exact ⟨_, hlt, outputs, hspends, rfl⟩

theorem isSome_outputTotal? : tx.outputTotal?.isSome ↔ valueOf tx.outputs < UInt64.size := by
  rw [isSome_iff_of_eq_some fun _ => outputTotal?_eq_some]
  constructor
  · rintro ⟨_, hlt, rfl⟩
    exact hlt
  · intro hlt
    exact ⟨_, hlt, rfl⟩

/-! ## Fees -/

theorem fee?_eq_some {fee : UInt64} : (tx.fee spent).fee? = some fee ↔
    ∃ inputTotal outputTotal, (tx.fee spent).inputTotal? = some inputTotal ∧
      (tx.fee spent).outputTotal? = some outputTotal ∧
      inputTotal.toNat = outputTotal.toNat + fee.toNat := by
  show (do checkedSub (← tx.inputTotal? spent) (← tx.outputTotal?)) = some fee ↔ _
  simp only [Option.bind_eq_bind, Option.bind_eq_some_iff, checkedSub_eq_some]
  constructor
  · rintro ⟨inputTotal, hinput, outputTotal, houtput, hfee⟩
    exact ⟨inputTotal, outputTotal, hinput, houtput, hfee⟩
  · rintro ⟨inputTotal, outputTotal, hinput, houtput, hfee⟩
    exact ⟨inputTotal, hinput, outputTotal, houtput, hfee⟩

/-- Version and lock time alone take eight bytes. -/
theorem size_pos (tx : Transaction) : 0 < tx.size := Nat.succ_pos _

theorem satoshisPerByte?_eq : (tx.fee spent).satoshisPerByte? =
    (tx.fee spent).fee?.map fun fee => .quotient fee.toNat (tx.fee spent).size := by
  show (if tx.size = 0 then none else _) = _
  rw [if_neg (Nat.ne_of_gt tx.size_pos)]
  rfl

/-- The totals are the sums of natural numbers where all parts are known and the sums are numbers of
64 bits, and absent otherwise. The fee is the exact difference, and absent where there is none. -/
theorem fee_exact (tx : Transaction) (spent : List (Option TransactionOutput)) :
    let summary := tx.fee spent
    (∀ total, summary.inputTotal? = some total ↔
      ∃ outputs, tx.Spends spent outputs ∧ valueOf outputs = total.toNat) ∧
    (summary.inputTotal?.isSome ↔
      ∃ outputs, tx.Spends spent outputs ∧ valueOf outputs < UInt64.size) ∧
    (∀ total, summary.outputTotal? = some total ↔ valueOf tx.outputs = total.toNat) ∧
    (summary.outputTotal?.isSome ↔ valueOf tx.outputs < UInt64.size) ∧
    (∀ fee, summary.fee? = some fee ↔
      ∃ inputTotal outputTotal, summary.inputTotal? = some inputTotal ∧
        summary.outputTotal? = some outputTotal ∧
        inputTotal.toNat = outputTotal.toNat + fee.toNat) ∧
    summary.size ≠ 0 ∧
    (summary.satoshisPerByte?.isSome ↔ summary.fee?.isSome) := by
  intro summary
  refine ⟨fun _ => inputTotal?_eq_some, isSome_inputTotal?, fun _ => outputTotal?_eq_some,
    isSome_outputTotal?, fun _ => fee?_eq_some, Nat.ne_of_gt tx.size_pos, ?_⟩
  rw [satoshisPerByte?_eq, Option.isSome_map]

/-- The two inputs spend more than 64 bits have room for. -/
example : (fee { inputs := [⟨.null, {}, 0, {}⟩, ⟨.null, {}, 0, {}⟩] }
    [some ⟨0xffffffffffffffff, {}, {}⟩, some ⟨1, {}, {}⟩]).inputTotal? = none := by decide

end Transaction

end Utxo
