import Utxo.Proofs.Interpreter.Outcomes
import Utxo.Proofs.Script.Words

/-!
# What is true

A conditional looks at the bytes of an item, and the end of a script at the number that they stand
for. Both draw the same line between true and false, except that an item too wide for a number is
never true at the end.
-/

namespace Utxo

/-! ## Bytes -/

namespace ScriptNumber

variable {b : Bytes}

theorem isTrue_concat (init : Bytes) (last : UInt8) :
    isTrue (init ++ [last]) = (init.any (· != 0) || last &&& 0x7f != 0) := by
  simp [isTrue]

theorem isZero_concat {init : Bytes} {last : UInt8} :
    IsZero (init ++ [last]) ↔ (∀ x ∈ init, x = 0) ∧ (last = 0 ∨ last = 0x80) := by
  constructor
  · rintro ⟨width, h | h⟩
    · have hall := (List.eq_replicate_iff.mp h).2
      exact ⟨fun x hx => hall x (List.mem_append_left _ hx), .inl (hall last (by simp))⟩
    · obtain ⟨hinit, hlast⟩ := List.append_inj' h rfl
      exact ⟨(List.eq_replicate_iff.mp hinit).2, .inr (List.cons.inj hlast).1⟩
  · rintro ⟨hinit, rfl | rfl⟩
    · refine ⟨init.length + 1, .inl ?_⟩
      rw [List.replicate_succ', ← List.eq_replicate_iff.mpr ⟨rfl, hinit⟩]
    · refine ⟨init.length, .inr ?_⟩
      rw [← List.eq_replicate_iff.mpr ⟨rfl, hinit⟩]

/-- The bit of the sign does not count. -/
theorem and_magnitude_eq_zero_iff (x : UInt8) : x &&& 0x7f = 0 ↔ x = 0 ∨ x = 0x80 := by
  -- There are few enough bytes to look at each of them.
  have hall : ∀ n < UInt8.size,
      UInt8.ofNat n &&& 0x7f = 0 ↔ UInt8.ofNat n = 0 ∨ UInt8.ofNat n = 0x80 := by
    decide +kernel
  simpa using hall x.toNat x.toNat_lt

/-- The scan of the bytes finds the zeros of every width. -/
theorem isTrue_iff_not_isZero : isTrue b = true ↔ ¬IsZero b := by
  rcases b.eq_nil_or_concat with rfl | ⟨init, last, rfl⟩
  · exact iff_of_false nofun (not_not.mpr ⟨0, .inl rfl⟩)
  · rw [List.concat_eq_append, isTrue_concat, isZero_concat, ← and_magnitude_eq_zero_iff]
    simp [Decidable.or_iff_not_imp_left]

theorem isTrue_iff_decode? (h : b.length ≤ maxWidth) :
    isTrue b = true ↔ decode? maxWidth b ≠ some 0 := by
  rw [isTrue_iff_not_isZero, Ne, decode?_eq_zero_iff, and_iff_right h]

end ScriptNumber

/-! ## Items -/

/-- At the end of a script an item has to be a number as well. -/
theorem Stack.requireTrue_single {item : Bytes} :
    requireTrue [item] = .ok () ↔
      item.length ≤ numberWidth ∧ ScriptNumber.isTrue item = true := by
  have hwidth : numberWidth ≤ ScriptNumber.maxWidth := by decide
  simp only [requireTrue]
  cases hn : ScriptNumber.decode? numberWidth item with
  | none =>
    have hlong : ¬item.length ≤ numberWidth := by
      intro hshort
      obtain ⟨n, hn'⟩ := ScriptNumber.exists_decode? (Nat.le_trans hshort hwidth)
      rw [ScriptNumber.decode?_eq_some_iff.mpr ⟨hshort, hn'⟩] at hn
      cases hn
    simp [hlong]
  | some n =>
    obtain ⟨hshort, hn'⟩ := ScriptNumber.decode?_eq_some_iff.mp hn
    rw [ScriptNumber.isTrue_iff_decode? (Nat.le_trans hshort hwidth), hn', and_iff_right hshort]
    by_cases hzero : n = 0
    · simp [hzero]
    · simp [hzero]

namespace Exec

variable {setting : Setting} {t : Thread}

/-- An `IF` takes its first branch if the item is true, and a `NOTIF` if it is not. -/
theorem reached_opener_on (wanted : Bool) (hon : t.executing = true)
    (hroom : t.around.length < setting.maxDepth) {item : Bytes} {rest : Stack}
    (hmain : t.main = item :: rest) :
    (operation setting (.opener wanted)).reached t =
      .ok ({ t with main := rest }.under (true :: t.around)
        (ScriptNumber.isTrue item == wanted)) := by
  have hpop : (onMain (Stack.popBool .main)).runFrom t =
      (.ok (ScriptNumber.isTrue item), { t with main := rest }) := by
    rw [runFrom_onMain, hmain]
    rfl
  rw [reached_operation_on _ hon, Command.ofOperation_opener, command,
    reached_openBranch_on wanted hon hroom, hpop]

end Exec

/-! ## Scripts -/

theorem Script.evaluate_of_run {s : Script} {setting : Setting} {stack : Stack}
    (h : s.run setting = .ok stack) : s.evaluate setting = stack.requireTrue := by
  obtain ⟨t, ht, rfl⟩ := run_eq_ok.mp h
  rw [evaluate, Exec.evaluation, Stateful.runFrom_bind_of_ok (Exec.runFrom_of_reached ht),
    Exec.requireTrue, Stateful.runFrom_get_bind]
  cases t.main.requireTrue <;> rfl

/-- Where an item has at most eight bytes, it is true just if the number that it stands for is not
zero. At the end of a script it has to have at most four; and if a script leaves one such item, that
is accepted just if an `IF` on the item takes its first branch, whatever thread looks at it. -/
theorem truth_agrees :
    (∀ b : Bytes, b.length ≤ ScriptNumber.maxWidth →
      (ScriptNumber.isTrue b = true ↔ ScriptNumber.decode? ScriptNumber.maxWidth b ≠ some 0)) ∧
    (∀ b : Bytes, Stack.requireTrue [b] = .ok () ↔
      b.length ≤ Stack.numberWidth ∧ ScriptNumber.isTrue b = true) ∧
    ∀ (s : Script) (setting : Setting) (item : Bytes), s.run setting = .ok [item] →
      item.length ≤ Stack.numberWidth →
      ∀ (setting' : Setting) (t : Thread) (rest : Stack), t.main = item :: rest →
        t.executing = true → t.around.length < setting'.maxDepth →
        ∃ u, (Exec.operation setting' (.opener true)).reached t = .ok u ∧ u.main = rest ∧
          (s.evaluate setting = .ok () ↔ u.executing = true) := by
  refine ⟨fun b => ScriptNumber.isTrue_iff_decode?, fun b => Stack.requireTrue_single, ?_⟩
  intro s setting item hrun hshort setting' t rest hmain hon hroom
  refine ⟨_, Exec.reached_opener_on true hon hroom hmain, rfl, ?_⟩
  rw [Script.evaluate_of_run hrun, Stack.requireTrue_single, and_iff_right hshort]
  show _ ↔ (ScriptNumber.isTrue item == true) = true
  rw [beq_true]

/-- A zero with a sign is false for both, and a one in five bytes is true for a conditional only. -/
theorem truth_agrees_negative_zero :
    let zero : Bytes := [0x00, 0x80]
    let one : Bytes := [0x01, 0x00, 0x00, 0x00, 0x00]
    let s : Script := .ofOperations [.push .direct zero (by decide)]
    s.run {} = .ok [zero] ∧ s.evaluate {} ≠ .ok () ∧
      (∃ u, (Exec.operation {} (.opener true)).reached { main := [zero, one] } = .ok u ∧
        u.main = [one] ∧ u.executing = false) ∧
      ScriptNumber.decode? ScriptNumber.maxWidth one ≠ some 0 ∧
      Stack.requireTrue [one] ≠ .ok () := by
  intro zero one s
  obtain ⟨hbytes, hend, hscript⟩ := truth_agrees
  have hrun : s.run {} = .ok [zero] := by rfl
  obtain ⟨u, hu, hrest, htaken⟩ :=
    hscript s {} zero hrun (by decide) {} { main := [zero, one] } [one] rfl rfl (by decide)
  have hfalse : s.evaluate {} ≠ .ok () := by
    rw [Script.evaluate_of_run hrun, Ne, hend]
    decide
  refine ⟨hrun, hfalse, ⟨u, hu, hrest, ?_⟩, (hbytes one (by decide)).mp (by decide), ?_⟩
  · exact Bool.eq_false_iff.mpr fun h => hfalse (htaken.mpr h)
  · rw [Ne, hend]
    decide

end Utxo
