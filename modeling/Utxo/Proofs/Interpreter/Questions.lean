import Utxo.Proofs.Interpreter.Outcomes

/-!
# Questions to the signature check

All that a run has from the signature check are the answers to its questions, and the thread keeps
a list of these. So a run that asks nothing is the same with any check and without one.
-/

namespace Utxo

/-- The check gives no answer to one of these questions; or there is no check that could. -/
def Setting.Refuses (setting : Setting) (asked : List CheckedSignature) (failure : Failure) :
    Prop :=
  match setting.check? with
  | none => failure = .noContext
  | some check => ∃ q ∈ asked, check q.signature q.flags q.key q.input = .error failure

theorem Setting.Refuses.mono {setting : Setting} {asked asked' : List CheckedSignature}
    {failure : Failure} (h : setting.Refuses asked failure) (hsub : asked ⊆ asked') :
    setting.Refuses asked' failure := by
  unfold Refuses at h ⊢
  cases hcheck : setting.check? with
  | none =>
    rw [hcheck] at h
    exact h
  | some check =>
    rw [hcheck] at h
    obtain ⟨q, hq, hrefused⟩ := h
    exact ⟨q, hsub hq, hrefused⟩

/-! ## Failures of scripts -/

section BlamesScript

variable {σ α β : Type}

/-- If the computation fails, the script is to blame. -/
def BlamesScript (x : Stateful Failure σ α) : Prop :=
  ∀ s failure, (x.runFrom s).1 = .error failure → failure.OfScript

theorem blamesScript_pure (a : α) : BlamesScript (pure a : Stateful Failure σ α) := nofun

theorem blamesScript_throw {failure : Failure} (h : failure.OfScript) :
    BlamesScript (throw failure : Stateful Failure σ α) := by
  rintro _ _ ⟨⟩
  exact h

theorem BlamesScript.bind {x : Stateful Failure σ α} {f : α → Stateful Failure σ β}
    (hx : BlamesScript x) (hf : ∀ a, BlamesScript (f a)) : BlamesScript (x >>= f) := by
  intro s failure h
  rcases hrun : x.runFrom s with ⟨failure' | a, u⟩
  · rw [Stateful.runFrom_bind_of_error hrun] at h
    cases h
    exact hx s failure (by rw [hrun])
  · rw [Stateful.runFrom_bind_of_ok hrun] at h
    exact hf a u failure h

end BlamesScript

namespace Stack

variable {name : StackName}

theorem blamesScript_push (item : Bytes) : BlamesScript (push item) := nofun

theorem blamesScript_pop : BlamesScript (pop name) := by
  intro s failure h
  cases s with
  | nil =>
    cases h
    trivial
  | cons => cases h

theorem blamesScript_peek : BlamesScript (peek name) := by
  intro s failure h
  cases s with
  | nil =>
    cases h
    trivial
  | cons => cases h

theorem blamesScript_popBool : BlamesScript (popBool name) :=
  blamesScript_pop.bind fun _ => blamesScript_pure _

theorem ofScript_of_number {limit : Nat} {item : Bytes} {failure : Failure}
    (h : number limit item = .error failure) : failure.OfScript := by
  unfold number at h
  split at h
  · cases h
  · cases h
    trivial

theorem blamesScript_popNumber : BlamesScript (popNumber name) := by
  refine blamesScript_pop.bind fun item => ?_
  split
  · exact blamesScript_pure _
  · rename_i hnumber
    exact blamesScript_throw (ofScript_of_number hnumber)

theorem ofScript_of_requireTrue {s : Stack} {failure : Failure}
    (h : s.requireTrue = .error failure) : failure.OfScript := by
  unfold requireTrue at h
  split at h
  · split at h
    · cases h
      trivial
    · cases h
      trivial
    · cases h
  · cases h
    trivial

end Stack

namespace Exec

variable {setting : Setting} {t : Thread} {α β : Type}

/-! ## What a run asks -/

/-- From `t` on the run asks these questions, all of them about its input, and without a check it
asks none. If it fails, the script is to blame or an answer that was refused. -/
structure Asks (setting : Setting) (x : Exec α) (t : Thread) (asked : List CheckedSignature) :
    Prop where
  checked : (x.runFrom t).2.checked = t.checked ++ asked
  input : ∀ q ∈ asked, q.input = setting.input
  unchecked : setting.check? = none → asked = []
  failure : ∀ failure, (x.runFrom t).1 = .error failure →
    failure.OfScript ∨ setting.Refuses asked failure

def Accounted (setting : Setting) (x : Exec α) : Prop := ∀ t, ∃ asked, Asks setting x t asked

theorem asks_nothing {x : Exec α} (hchecked : (x.runFrom t).2.checked = t.checked)
    (hfailure : ∀ failure, (x.runFrom t).1 = .error failure → failure.OfScript) :
    Asks setting x t [] :=
  ⟨by rw [hchecked, List.append_nil], nofun, fun _ => rfl, fun _ h => .inl (hfailure _ h)⟩

/-- A step that leaves the questions alone, and fails only where the script is to blame. -/
theorem accounted_of_quiet {x : Exec α}
    (h : ∀ t, (∃ a u, x.runFrom t = (.ok a, u) ∧ u.checked = t.checked) ∨
      ∃ failure, x.runFrom t = (.error failure, t) ∧ failure.OfScript) :
    Accounted setting x := by
  intro t
  rcases h t with ⟨a, u, hrun, hchecked⟩ | ⟨failure, hrun, hscript⟩
  · refine ⟨[], asks_nothing ?_ ?_⟩
    · rw [hrun, hchecked]
    · rw [hrun]
      nofun
  · refine ⟨[], asks_nothing ?_ ?_⟩
    · rw [hrun]
    · rw [hrun]
      rintro _ ⟨⟩
      exact hscript

theorem accounted_pure (a : α) : Accounted setting (pure a) := fun _ => ⟨[], asks_nothing rfl nofun⟩

theorem accounted_throw {failure : Failure} (h : failure.OfScript) :
    Accounted setting (throw failure : Exec α) :=
  accounted_of_quiet fun _ => .inr ⟨_, rfl, h⟩

theorem Accounted.bind {x : Exec α} {f : α → Exec β} (hx : Accounted setting x)
    (hf : ∀ a, Accounted setting (f a)) : Accounted setting (x >>= f) := by
  intro t
  obtain ⟨asked, hasked⟩ := hx t
  rcases hrun : x.runFrom t with ⟨failure | a, u⟩
  · have hbind : (x >>= f).runFrom t = (.error failure, u) := Stateful.runFrom_bind_of_error hrun
    refine ⟨asked, ?_, hasked.input, hasked.unchecked, fun failure' h => ?_⟩
    · rw [hbind, ← hasked.checked, hrun]
    · rw [hbind] at h
      exact hasked.failure failure' (by rw [hrun]; cases h; rfl)
  · have hbind : (x >>= f).runFrom t = (f a).runFrom u := Stateful.runFrom_bind_of_ok hrun
    obtain ⟨more, hmore⟩ := hf a u
    have hchecked := hasked.checked
    rw [hrun] at hchecked
    refine ⟨asked ++ more, ?_, ?_, fun hnone => ?_, fun failure h => ?_⟩
    · rw [hbind, hmore.checked, hchecked, List.append_assoc]
    · rw [List.forall_mem_append]
      exact ⟨hasked.input, hmore.input⟩
    · rw [hasked.unchecked hnone, hmore.unchecked hnone, List.append_nil]
    · rw [hbind] at h
      exact (hmore.failure failure h).imp_right (·.mono (List.subset_append_right _ _))

theorem accounted_get {f : Thread → Exec α} (hf : ∀ t, Accounted setting (f t)) :
    Accounted setting (get >>= f) := by
  intro t
  obtain ⟨asked, hchecked, hinput, hunchecked, hfailure⟩ := hf t t
  rw [← Stateful.runFrom_get_bind] at hchecked hfailure
  exact ⟨asked, hchecked, hinput, hunchecked, hfailure⟩

theorem accounted_onMain {x : Stateful Failure Stack α} (hx : BlamesScript x) :
    Accounted setting (onMain x) := by
  intro t
  refine ⟨[], asks_nothing ?_ ?_⟩
  · rw [runFrom_onMain]
  · rw [runFrom_onMain]
    exact hx t.main

theorem accounted_onAlt {x : Stateful Failure Stack α} (hx : BlamesScript x) :
    Accounted setting (onAlt x) := by
  intro t
  refine ⟨[], asks_nothing ?_ ?_⟩
  · rw [runFrom_onAlt]
  · rw [runFrom_onAlt]
    exact hx t.alt

/-! ## Commands -/

theorem accounted_pop : Accounted setting pop := accounted_onMain Stack.blamesScript_pop

theorem accounted_checkSignature : Accounted setting (checkSignature setting) := by
  refine accounted_pop.bind fun key => accounted_pop.bind fun full => ?_
  split
  · exact accounted_pure false
  rename_i flag _
  split
  · rename_i hnone
    intro t
    refine ⟨[], (List.append_nil _).symm, nofun, fun _ => rfl, fun failure h => .inr ?_⟩
    cases h
    simp only [Setting.Refuses, hnone]
  · rename_i check hcheck
    intro t
    refine ⟨[⟨full.dropLast, ⟨flag⟩, key, setting.input⟩], ?_, by simp, by simp [hcheck], ?_⟩
    · rw [Stateful.runFrom_bind_of_ok (Stateful.runFrom_modify _ _)]
      split <;> rfl
    · rw [Stateful.runFrom_bind_of_ok (Stateful.runFrom_modify _ _)]
      intro failure h
      split at h
      · cases h
      · rename_i hanswer
        cases h
        right
        simp only [Setting.Refuses, hcheck]
        exact ⟨_, List.mem_singleton_self _, hanswer⟩

theorem stepwise_accounted : Stepwise setting (Accounted setting) where
  pure := accounted_pure
  throw := accounted_throw
  bind := Accounted.bind
  push item := accounted_onMain (Stack.blamesScript_push item)
  pop := accounted_pop
  peek := accounted_onMain Stack.blamesScript_peek
  popNumber := accounted_onMain Stack.blamesScript_popNumber
  pushAlt item := accounted_onAlt (Stack.blamesScript_push item)
  popAlt := accounted_onAlt Stack.blamesScript_pop
  checkSignature := accounted_checkSignature

theorem accounted_openBranch (wanted : Bool) : Accounted setting (openBranch setting wanted) := by
  refine accounted_get fun t => ?_
  dsimp only
  have hopen : ∀ runs, Accounted setting (modify fun s : Thread =>
      { s with around := t.executing :: s.around, executing := runs } : Exec Unit) :=
    fun runs u => ⟨[], asks_nothing rfl nofun⟩
  have hcondition : Accounted setting ((· == wanted) <$> onMain (Stack.popBool .main)) :=
    (accounted_onMain Stack.blamesScript_popBool).bind fun _ => accounted_pure _
  split
  · exact accounted_throw trivial
  split
  · exact hcondition.bind hopen
  · exact (accounted_pure false).bind hopen

theorem accounted_flipBranch : Accounted setting flipBranch := by
  refine accounted_of_quiet fun t => ?_
  cases haround : t.around with
  | nil => exact .inr ⟨_, runFrom_flipBranch_outside haround, trivial⟩
  | cons outer around => exact .inl ⟨_, _, runFrom_of_reached (reached_flipBranch haround), rfl⟩

theorem accounted_closeBranch : Accounted setting closeBranch := by
  refine accounted_of_quiet fun t => ?_
  cases haround : t.around with
  | nil => exact .inr ⟨_, runFrom_closeBranch_outside haround, trivial⟩
  | cons outer around => exact .inl ⟨_, _, runFrom_of_reached (reached_closeBranch haround), rfl⟩

theorem accounted_command (c : Command) : Accounted setting (command setting c) := by
  cases c with
  | openBranch wanted => exact accounted_openBranch wanted
  | flipBranch => exact accounted_flipBranch
  | closeBranch => exact accounted_closeBranch
  | _ => exact stepwise_accounted.command rfl

/-! ## Runs -/

theorem accounted_operation (op : Operation) : Accounted setting (operation setting op) := by
  refine accounted_get fun t => ?_
  dsimp only
  split
  · exact accounted_command _
  · exact accounted_pure ()

theorem accounted_operations (ops : List Operation) :
    Accounted setting (operations setting ops) := by
  induction ops with
  | nil => exact accounted_pure ()
  | cons op rest ih => exact (accounted_operation op).bind fun _ => ih

/-- What a script does behind its operations. -/
def ending (s : Script) : Exec Unit :=
  match s.fault? with
  | some fault => throw (.undecodable fault.reason)
  | none => do
    let t ← get
    if t.around.isEmpty then set { t with alt := [] } else throw .unclosed

theorem accounted_ending (s : Script) : Accounted setting (ending s) := by
  unfold ending
  split
  · exact accounted_throw trivial
  · refine accounted_of_quiet fun t => ?_
    rw [Stateful.runFrom_get_bind]
    split
    · exact .inl ⟨_, _, rfl, rfl⟩
    · exact .inr ⟨_, rfl, trivial⟩

theorem accounted_script (s : Script) : Accounted setting (script setting s) :=
  (accounted_operations s.operations).bind fun _ => accounted_ending s

theorem accounted_requireTrue : Accounted setting requireTrue := by
  refine accounted_get fun t => ?_
  split
  · exact accounted_pure ()
  · rename_i failure hfailure
    exact accounted_throw (Stack.ofScript_of_requireTrue hfailure)

theorem accounted_spend (unlocking locking : Script) :
    Accounted setting (spend setting unlocking locking) :=
  (accounted_script unlocking).bind fun _ =>
    (accounted_script locking).bind fun _ => accounted_requireTrue

/-! ## With a check and without one -/

/-- The second computation does the same as the first one, unless that fails for want of a check:
then the second one asks something. -/
def SameUntilAsked (x y : Exec α) : Prop :=
  ∀ t, t.checked.length ≤ (y.runFrom t).2.checked.length ∧
    (y.runFrom t = x.runFrom t ∨
      (x.runFrom t).1 = .error .noContext ∧ t.checked.length < (y.runFrom t).2.checked.length)

theorem same_of_accounted (setting : Setting) {x : Exec α} (hx : Accounted setting x) :
    SameUntilAsked x x := by
  intro t
  obtain ⟨asked, hasked⟩ := hx t
  refine ⟨?_, .inl rfl⟩
  rw [hasked.checked, List.length_append]
  exact Nat.le_add_right _ _

theorem SameUntilAsked.bind {x y : Exec α} {f g : α → Exec β} (hxy : SameUntilAsked x y)
    (hfg : ∀ a, SameUntilAsked (f a) (g a)) : SameUntilAsked (x >>= f) (y >>= g) := by
  intro t
  have hstop : (x.runFrom t).1 = .error .noContext →
      ((x >>= f).runFrom t).1 = .error .noContext := by
    rw [Stateful.runFrom_bind]
    rcases x.runFrom t with ⟨failure | a, u⟩
    · rintro ⟨⟩
      rfl
    · nofun
  obtain ⟨hgrows, hsame⟩ := hxy t
  rcases hy : y.runFrom t with ⟨failure | a, u⟩
  · rw [hy] at hgrows hsame
    rw [Stateful.runFrom_bind_of_error hy]
    refine ⟨hgrows, ?_⟩
    rcases hsame with hsame | ⟨hfailure, hasked⟩
    · exact .inl (Stateful.runFrom_bind_of_error hsame.symm).symm
    · exact .inr ⟨hstop hfailure, hasked⟩
  · rw [hy] at hgrows hsame
    obtain ⟨hgrows', hsame'⟩ := hfg a u
    rw [Stateful.runFrom_bind_of_ok hy]
    refine ⟨Nat.le_trans hgrows hgrows', ?_⟩
    rcases hsame with hsame | ⟨hfailure, hasked⟩
    · rw [Stateful.runFrom_bind_of_ok hsame.symm]
      exact hsame'.imp_right fun h => ⟨h.1, Nat.lt_of_le_of_lt hgrows h.2⟩
    · exact .inr ⟨hstop hfailure, Nat.lt_of_lt_of_le hasked hgrows'⟩

theorem same_get {f g : Thread → Exec α} (hfg : ∀ t, SameUntilAsked (f t) (g t)) :
    SameUntilAsked (get >>= f) (get >>= g) := by
  intro t
  rw [Stateful.runFrom_get_bind, Stateful.runFrom_get_bind]
  exact hfg t t

variable {check : SignatureCheck}

theorem same_checkSignature (hnone : setting.check? = none) :
    SameUntilAsked (checkSignature setting)
      (checkSignature { setting with check? := some check }) := by
  have hpop : SameUntilAsked pop pop := same_of_accounted setting accounted_pop
  refine hpop.bind fun key => hpop.bind fun full => ?_
  split
  · exact same_of_accounted setting (accounted_pure false)
  · intro t
    simp only [hnone]
    rw [Stateful.runFrom_bind_of_ok (Stateful.runFrom_modify _ _)]
    split <;> simp

/-- Only the signature commands look at the check. -/
theorem same_command (hnone : setting.check? = none) (c : Command) :
    SameUntilAsked (command setting c) (command { setting with check? := some check } c) := by
  cases c with
  | checkSig =>
    refine (same_checkSignature hnone).bind fun good => ?_
    exact same_of_accounted setting (accounted_onMain (Stack.blamesScript_push _))
  | checkSigVerify =>
    refine (same_checkSignature hnone).bind fun good => ?_
    split
    · exact same_of_accounted setting (accounted_throw trivial)
    · exact same_of_accounted setting (accounted_pure ())
  | _ => exact same_of_accounted setting (accounted_command _)

theorem same_operation (hnone : setting.check? = none) (op : Operation) :
    SameUntilAsked (operation setting op) (operation { setting with check? := some check } op) := by
  refine same_get fun t => ?_
  dsimp only
  split
  · exact same_command hnone _
  · exact same_of_accounted setting (accounted_pure ())

theorem same_operations (hnone : setting.check? = none) (ops : List Operation) :
    SameUntilAsked (operations setting ops)
      (operations { setting with check? := some check } ops) := by
  induction ops with
  | nil => exact same_of_accounted setting (accounted_pure ())
  | cons op rest ih => exact (same_operation hnone op).bind fun _ => ih

theorem same_script (hnone : setting.check? = none) (s : Script) :
    SameUntilAsked (script setting s) (script { setting with check? := some check } s) :=
  (same_operations hnone s.operations).bind fun _ => same_of_accounted setting (accounted_ending s)

end Exec

/-! ## Whole runs -/

/-- A run that lacks a check asks something of any check it is given. Any other run is the same with
a check, and asks nothing. -/
theorem run_lacks_check_or_same {setting : Setting} (hnone : setting.check? = none)
    (check : SignatureCheck) (s : Script) :
    let told : Setting := { setting with check? := some check }
    let asked := ((Exec.script told s).runFrom {}).2.checked
    (s.run setting = .error .noContext ∧ asked ≠ []) ∨
      (s.run setting ≠ .error .noContext ∧ s.run told = s.run setting ∧ asked = []) := by
  intro told asked
  have hsame : Exec.SameUntilAsked (Exec.script setting s) (Exec.script told s) :=
    Exec.same_script hnone s
  obtain ⟨-, hsame | ⟨hlacks, hasked⟩⟩ := hsame {}
  · right
    obtain ⟨more, hmore⟩ : ∃ more, Exec.Asks setting (Exec.script setting s) {} more :=
      Exec.accounted_script s {}
    obtain ⟨more', hmore'⟩ : ∃ more, Exec.Asks told (Exec.script told s) {} more :=
      Exec.accounted_script s {}
    have hnothing : asked = [] := by
      show ((Exec.script told s).runFrom {}).2.checked = []
      rw [hsame, hmore.checked, hmore.unchecked hnone]
      rfl
    have hnothing' : more' = [] := hmore'.checked.symm.trans hnothing
    refine ⟨fun hlacks => ?_, ?_, hnothing⟩
    · rw [Script.run_eq_error, ← hsame] at hlacks
      rcases hmore'.failure _ hlacks with hscript | ⟨q, hq, -⟩
      · exact hscript
      · rw [hnothing'] at hq
        cases hq
    · rw [Script.run, Script.run, hsame]
  · left
    exact ⟨Script.run_eq_error.mpr hlacks, List.length_pos_iff.mp hasked⟩

/-- A run without a signature check that does not fail for want of it is the same with any check,
whatever that answers, since the check is not asked anything. If it does fail for want of a check,
then any check is asked something. -/
theorem run_same_unless_asked (maxDepth input : Nat) (check : SignatureCheck) (s : Script) :
    let alone : Setting := { maxDepth, input }
    let told : Setting := { maxDepth, check? := some check, input }
    let asked := ((Exec.script told s).runFrom {}).2.checked
    (∀ r, s.run alone = r → (∀ failure, r = .error failure → failure.code ≠ .missingContext) →
      s.run told = r ∧ asked = []) ∧
    ((∃ failure, s.run alone = .error failure ∧ failure.code = .missingContext) ↔ asked ≠ []) := by
  intro alone told asked
  have hnone : alone.check? = none := rfl
  have hcases := run_lacks_check_or_same hnone check s
  have hcode : ∀ failure : Failure, failure.code = .missingContext ↔ failure = .noContext := by
    intro failure
    cases failure <;> simp [Failure.code]
  rcases hcases with ⟨hlacks, hasked⟩ | ⟨hlacks, hsame, hasked⟩
  · refine ⟨fun r hr hcode' => ?_, iff_of_true ⟨_, hlacks, rfl⟩ hasked⟩
    exact absurd rfl (hcode' .noContext (hr.symm.trans hlacks))
  · refine ⟨fun r hr _ => ⟨hsame.trans hr, hasked⟩, iff_of_false ?_ (· hasked)⟩
    rintro ⟨failure, hfailure, hmissing⟩
    rw [(hcode failure).mp hmissing] at hfailure
    exact hlacks hfailure

/-- A signature in a branch that is passed over, and then one that is empty, are no questions; and
one that is neither is a question, even if it gets no answer. -/
theorem run_same_unless_asked_empty :
    let check : SignatureCheck := fun _ _ _ _ => .error (.noInput 0 0)
    let signed : List Operation :=
      [.push .direct [0x41] (by decide), .push .direct [0x02] (by decide), .code Opcode.checkSig]
    let s : Script := .ofOperations (.code Opcode.push0 :: .opener true :: signed ++
      [.code Opcode.opEndIf, .code Opcode.push0, .push .direct [0x02] (by decide),
        .code Opcode.checkSig])
    s.run {} = .ok [[]] ∧ s.run { check? := some check } = .ok [[]] ∧
      (Script.ofOperations signed).run {} = .error .noContext ∧
      ((Exec.script { check? := some check } (.ofOperations signed)).runFrom {}).2.checked ≠
        [] := by
  intro check signed s
  have hrun : s.run {} = .ok [[]] := by rfl
  have hlacks : (Script.ofOperations signed).run {} = .error .noContext := by rfl
  have hsame := (run_same_unless_asked 100 0 check s).1 _ hrun nofun
  have hasked := (run_same_unless_asked 100 0 check (.ofOperations signed)).2
  exact ⟨hrun, hsame.1, hlacks, hasked.mp ⟨_, hlacks, rfl⟩⟩

end Utxo
