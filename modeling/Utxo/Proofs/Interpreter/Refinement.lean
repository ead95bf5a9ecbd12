import Utxo.Proofs.Interpreter.Conditionals

/-!
# Flags do what blocks say

The main statement is that a script succeeds exactly if it is a block, no deeper than allowed, and
the run of that block succeeds, and that both then reach the same state.
-/

namespace Utxo

open Exec

/-! ## Where nothing runs -/

variable {setting : Setting}

mutual

/-- A block that does not run is passed over as if it were not there. -/
theorem Block.reached_off (block : Block) {t : Thread} (hoff : t.executing = false)
    (hroom : t.around.length + block.depth ≤ setting.maxDepth) :
    (Exec.operations setting block.operations).reached t = .ok t := by
  cases block with
  | done =>
    rw [Block.operations]
    rfl
  | plain op isPlain rest =>
    rw [Block.depth] at hroom
    rw [Block.operations, reached_operations_cons, reached_operation_off isPlain hoff, ok_then]
    exact rest.reached_off hoff hroom
  | conditional wanted branches rest =>
    rw [Block.depth] at hroom
    have hopen : (operation setting (.opener wanted)).reached t =
        .ok (t.under (false :: t.around) false) := by
      rw [reached_operation_conditional (by rw [Command.ofOperation_opener]; rfl),
        Command.ofOperation_opener, command, reached_openBranch_off wanted hoff (by omega)]
    have hinner : (Exec.operations setting branches.operations).reached
        (t.under (false :: t.around) false) = .ok (t.under (false :: t.around) false) :=
      branches.reached_off rfl rfl (by rw [Thread.around_under, List.length_cons]; omega)
    have hclose : (operation setting (.code Opcode.opEndIf)).reached
        (t.under (false :: t.around) false) = .ok t := by
      rw [reached_endIf rfl, Thread.under_under, Thread.under_self rfl hoff]
    rw [Block.operations, reached_operations_cons, hopen, ok_then, reached_operations_append,
      hinner, ok_then, reached_operations_cons, hclose, ok_then]
    exact rest.reached_off hoff (by omega)

theorem Branches.reached_off (branches : Branches) {t : Thread} {around : List Bool}
    (hoff : t.executing = false) (haround : t.around = false :: around)
    (hroom : t.around.length + branches.depth ≤ setting.maxDepth) :
    (Exec.operations setting branches.operations).reached t = .ok t := by
  cases branches with
  | last body =>
    rw [Branches.depth] at hroom
    rw [Branches.operations]
    exact body.reached_off hoff hroom
  | orElse body rest =>
    rw [Branches.depth] at hroom
    have hflip : (operation setting (.code Opcode.opElse)).reached t = .ok t := by
      rw [reached_operation_conditional rfl, Command.ofOperation_else, command,
        reached_flipBranch haround, Bool.false_and, Thread.under_self rfl hoff]
    rw [Branches.operations, reached_operations_append, body.reached_off hoff (by omega), ok_then,
      reached_operations_cons, hflip, ok_then]
    exact rest.reached_off hoff haround (by omega)

end

/-! ## Where a block runs -/

/-- A block does under flags what it does without them. -/
def Block.Agrees (setting : Setting) (block : Block) : Prop :=
  ∀ t : Thread, t.executing = true → t.around.length + block.depth ≤ setting.maxDepth →
    (Exec.operations setting block.operations).reached t = (block.run setting).reached t

theorem Block.ignoresFlags_branch (body : Block) (live : Bool) :
    IgnoresFlags (if live then body.run setting else pure ()) := by
  split
  · exact body.ignoresFlags_run setting
  · exact ignoresFlags_pure ()

/-- A branch of a conditional that runs: either it runs too, or nothing happens. -/
theorem Block.Agrees.branch {body : Block} (hbody : body.Agrees setting) (t : Thread)
    (around : List Bool) (live : Bool)
    (hroom : around.length + 1 + body.depth ≤ setting.maxDepth) :
    (Exec.operations setting body.operations).reached (t.under (true :: around) live) =
      (·.under (true :: around) live) <$>
        Exec.reached (if live then body.run setting else pure ()) (t.under around true) := by
  cases live with
  | true =>
    rw [hbody _ rfl (by simpa using hroom), if_pos rfl]
    exact (body.ignoresFlags_run setting).reached_under (t.under around true) _ _
  | false =>
    rw [body.reached_off rfl (by simpa using hroom)]
    rfl

/-- What follows the branch agrees if it does so from a state inside the conditional. -/
theorem Block.Agrees.branch_then {body : Block} (hbody : body.Agrees setting) (t : Thread)
    (around : List Bool) (live : Bool)
    (hroom : around.length + 1 + body.depth ≤ setting.maxDepth)
    {f g : Thread → Except Failure Thread}
    (hnext : ∀ v : Thread, v.under around true = v → f (v.under (true :: around) live) = g v) :
    ((Exec.operations setting body.operations).reached (t.under (true :: around) live) >>= f) =
      (Exec.reached (if live then body.run setting else pure ()) (t.under around true) >>= g) := by
  rw [hbody.branch t around live hroom]
  cases hrun : Exec.reached (if live then body.run setting else pure ()) (t.under around true) with
  | error failure => rfl
  | ok v =>
    obtain ⟨haround, hexecuting⟩ := (body.ignoresFlags_branch live).flags_reached hrun
    exact hnext v (Thread.under_self haround hexecuting)

theorem Branches.run_orElse (body : Block) (rest : Branches) (first : Bool) :
    (Branches.orElse body rest).run setting first =
      (if first then body.run setting else pure ()) >>= fun _ => rest.run setting !first := by
  cases first <;> rw [Branches.run] <;> rfl

mutual

theorem Block.agrees (block : Block) : block.Agrees setting := by
  intro t hon hroom
  cases block with
  | done =>
    rw [Block.operations, Block.run]
    rfl
  | plain op isPlain rest =>
    rw [Block.depth] at hroom
    rw [Block.operations, Block.run, reached_operations_cons, reached_operation_on op hon,
      reached_then]
    cases hop : (command setting (.ofOperation op)).reached t with
    | error failure => rfl
    | ok u =>
      obtain ⟨haround, hexecuting⟩ :=
        (ignoresFlags_command setting isPlain).flags_reached hop
      exact rest.agrees u (hexecuting.trans hon) (by rw [haround]; exact hroom)
  | conditional wanted branches rest =>
    rw [Block.depth] at hroom
    rw [Block.operations, Block.run, List.append_cons, reached_operations_cons,
      reached_operation_on _ hon, Command.ofOperation_opener, command,
      reached_openBranch_on wanted hon (by omega), reached_bind]
    obtain ⟨haround, hexecuting⟩ := (ignoresFlags_onMain (Stack.popBool .main)).flags t
    rcases hpop : (onMain (Stack.popBool .main)).runFrom t with ⟨failure | condition, u⟩
    · rfl
    · rw [hpop] at haround hexecuting
      have hself : u.under t.around true = u := Thread.under_self haround (hexecuting.trans hon)
      simp only [ok_then]
      rw [reached_operations_append, branches.agrees u t.around (condition == wanted) (by omega),
        hself, reached_then]
      cases hrun : (branches.run setting (condition == wanted)).reached u with
      | error failure => rfl
      | ok v =>
        obtain ⟨haround', hexecuting'⟩ :=
          (branches.ignoresFlags_run setting _).flags_reached hrun
        exact rest.agrees v (by rw [hexecuting', hexecuting, hon])
          (by rw [haround', haround]; omega)

/-- From inside the first branch to behind the `ENDIF`. -/
theorem Branches.agrees (branches : Branches) (t : Thread) (around : List Bool) (first : Bool)
    (hroom : around.length + 1 + branches.depth ≤ setting.maxDepth) :
    (Exec.operations setting (branches.operations ++ [.code Opcode.opEndIf])).reached
        (t.under (true :: around) first) =
      (branches.run setting first).reached (t.under around true) := by
  cases branches with
  | last body =>
    rw [Branches.depth] at hroom
    rw [Branches.operations, Branches.run, reached_operations_append,
      ← bind_pure (Exec.reached _ (t.under around true))]
    refine Block.Agrees.branch_then body.agrees t around first hroom fun v hself => ?_
    rw [reached_operations_cons, reached_endIf rfl, ok_then, Thread.under_under, hself]
    rfl
  | orElse body rest =>
    rw [Branches.depth] at hroom
    rw [Branches.operations, Branches.run_orElse, List.append_assoc, List.cons_append,
      reached_operations_append, reached_then]
    refine Block.Agrees.branch_then body.agrees t around first (by omega) fun v hself => ?_
    rw [reached_operations_cons, reached_else_on rfl, ok_then, Thread.under_under,
      Thread.around_under, Thread.executing_under, rest.agrees v around (!first) (by omega), hself]

end

/-! ## Runs that succeed -/

/-- What is left of a script when some branches are open: the rest of each of their conditionals,
innermost first, and a block at the end. -/
inductive Remainder where
  | outside (block : Block)
  | inside (branches : Branches) (after : Remainder)

def Branches.onFirst (f : Block → Block) : Branches → Branches
  | .last body => .last (f body)
  | .orElse body rest => .orElse (f body) rest

theorem Branches.operations_onFirst {f : Block → Block} {before : List Operation}
    (hf : ∀ block, (f block).operations = before ++ block.operations) (branches : Branches) :
    (branches.onFirst f).operations = before ++ branches.operations := by
  cases branches with
  | last body => rw [onFirst, Branches.operations, Branches.operations, hf]
  | orElse body rest =>
    rw [onFirst, Branches.operations, Branches.operations, hf, List.append_assoc]

theorem Branches.depth_onFirst {f : Block → Block} {depth : Nat}
    (hf : ∀ block, (f block).depth = max depth block.depth) (branches : Branches) :
    (branches.onFirst f).depth = max depth branches.depth := by
  cases branches with
  | last body => rw [onFirst, Branches.depth, Branches.depth, hf]
  | orElse body rest => rw [onFirst, Branches.depth, Branches.depth, hf, Nat.max_assoc]

namespace Remainder

def operations : Remainder → List Operation
  | outside block => block.operations
  | inside branches after => branches.operations ++ .code Opcode.opEndIf :: after.operations

/-- How many branches are open. -/
def opened : Remainder → Nat
  | outside _ => 0
  | inside _ after => after.opened + 1

/-- No conditional stands deeper than `limit`. -/
def Fits (limit : Nat) : Remainder → Prop
  | outside block => block.depth ≤ limit
  | inside branches after => after.opened + 1 + branches.depth ≤ limit ∧ after.Fits limit

def onFirst (f : Block → Block) : Remainder → Remainder
  | outside block => outside (f block)
  | inside branches after => inside (branches.onFirst f) after

theorem operations_onFirst {f : Block → Block} {before : List Operation}
    (hf : ∀ block, (f block).operations = before ++ block.operations) (r : Remainder) :
    (r.onFirst f).operations = before ++ r.operations := by
  cases r with
  | outside block => exact hf block
  | inside branches after =>
    rw [onFirst, operations, operations, Branches.operations_onFirst hf, List.append_assoc]

@[simp] theorem opened_onFirst (f : Block → Block) (r : Remainder) :
    (r.onFirst f).opened = r.opened := by
  cases r <;> rfl

theorem Fits.onFirst {f : Block → Block} {depth limit : Nat} {r : Remainder} (h : r.Fits limit)
    (hf : ∀ block, (f block).depth = max depth block.depth) (hroom : r.opened + depth ≤ limit) :
    (r.onFirst f).Fits limit := by
  cases r with
  | outside block =>
    simp only [Fits, Remainder.onFirst, opened, hf] at *
    omega
  | inside branches after =>
    obtain ⟨hbranches, hafter⟩ := h
    refine ⟨?_, hafter⟩
    rw [Branches.depth_onFirst hf]
    simp only [opened] at hroom
    omega

theorem eq_inside_of_opened {r : Remainder} {n : Nat} (h : r.opened = n + 1) :
    ∃ branches after, r = inside branches after ∧ after.opened = n := by
  cases r with
  | outside block => simp [opened] at h
  | inside branches after => exact ⟨branches, after, rfl, by simpa [opened] using h⟩

end Remainder

/-- Operations that run to their end, where no branch is open, are what is left of a script. -/
theorem Remainder.exists_of_reached (ops : List Operation) {t u : Thread}
    (hrun : (Exec.operations setting ops).reached t = .ok u) (hclosed : u.around = [])
    (hroom : t.around.length ≤ setting.maxDepth) :
    ∃ r : Remainder, r.operations = ops ∧ r.opened = t.around.length ∧
      r.Fits setting.maxDepth := by
  induction ops generalizing t with
  | nil =>
    cases hrun
    exact ⟨.outside .done, by rw [operations, Block.operations], by rw [opened, hclosed]; rfl,
      by rw [Fits, Block.depth]; omega⟩
  | cons op rest ih =>
    rw [reached_operations_cons, bind_ok] at hrun
    obtain ⟨v, hop, hrest⟩ := hrun
    rcases Command.kinds op with hplain | ⟨wanted, rfl⟩ | rfl | rfl
    · -- In front of the innermost block.
      have haround := around_of_plain hplain hop
      obtain ⟨r, hops, hopened, hfits⟩ := ih hrest (by rw [haround]; exact hroom)
      refine ⟨r.onFirst (.plain op hplain), ?_, ?_, ?_⟩
      · have hplain' : ∀ block, (Block.plain op hplain block).operations =
            [op] ++ block.operations := fun block => by rw [Block.operations]; rfl
        rw [operations_onFirst hplain', hops]
        rfl
      · rw [opened_onFirst, hopened, haround]
      · have hflat : ∀ block, (Block.plain op hplain block).depth = max 0 block.depth :=
          fun block => by rw [Block.depth, Nat.zero_max]
        exact hfits.onFirst hflat (by rw [hopened, haround]; exact hroom)
    · -- The innermost conditional starts here, so it becomes a part of what is around it.
      obtain ⟨hdepth, haround⟩ := around_of_opener hop
      obtain ⟨r, hops, hopened, hfits⟩ := ih hrest (by omega)
      obtain ⟨branches, after, rfl, hafter⟩ := eq_inside_of_opened (hopened.trans haround)
      obtain ⟨hbranches, hfits⟩ := hfits
      refine ⟨after.onFirst (.conditional wanted branches), ?_, ?_, ?_⟩
      · have hwhole : ∀ block, (Block.conditional wanted branches block).operations =
            (.opener wanted :: (branches.operations ++ [.code Opcode.opEndIf])) ++
              block.operations := fun block => by rw [Block.operations]; simp
        rw [operations_onFirst hwhole, ← hops, operations]
        simp
      · rw [opened_onFirst, hafter]
      · exact hfits.onFirst (fun block => by rw [Block.depth]) (by omega)
    · -- In front of this there is one branch more, so far an empty one.
      obtain ⟨haround, hne⟩ := around_of_else hop
      obtain ⟨r, hops, hopened, hfits⟩ := ih hrest (by rw [haround]; exact hroom)
      obtain ⟨outer, around, ht⟩ := List.exists_cons_of_ne_nil hne
      rw [haround, ht, List.length_cons] at hopened
      obtain ⟨branches, after, rfl, hafter⟩ := eq_inside_of_opened hopened
      obtain ⟨hbranches, hfits⟩ := hfits
      refine ⟨.inside (.orElse .done branches) after, ?_, ?_, ?_, hfits⟩
      · rw [← hops, operations, operations, Branches.operations, Block.operations]
        rfl
      · rw [opened, hafter, ht, List.length_cons]
      · rw [Branches.depth, Block.depth, Nat.zero_max]
        exact hbranches
    · -- In front of this there is one conditional more.
      have haround := around_of_endIf hop
      obtain ⟨r, hops, hopened, hfits⟩ := ih hrest (by omega)
      refine ⟨.inside (.last .done) r, ?_, ?_, ?_, hfits⟩
      · rw [operations, Branches.operations, Block.operations, hops]
        rfl
      · rw [opened, hopened, haround]
      · rw [Branches.depth, Block.depth, hopened]
        omega

theorem Block.exists_of_reached {ops : List Operation} {t u : Thread}
    (hrun : (Exec.operations setting ops).reached t = .ok u) (hclosed : u.around = [])
    (hstart : t.around = []) :
    ∃ block : Block, block.operations = ops ∧ block.depth ≤ setting.maxDepth := by
  obtain ⟨r, hops, hopened, hfits⟩ :=
    Remainder.exists_of_reached ops hrun hclosed (by simp [hstart])
  cases r with
  | outside block => exact ⟨block, hops, hfits⟩
  | inside branches after => simp [Remainder.opened, hstart] at hopened

/-! ## Whole scripts -/

theorem Exec.reached_script (s : Script) (t : Thread) :
    (script setting s).reached t =
      (operations setting s.operations).reached t >>= fun u =>
        match s.fault? with
        | some fault => .error (.undecodable fault.reason)
        | none => if u.around.isEmpty then .ok { u with alt := [] } else .error .unclosed := by
  unfold script
  rw [reached_then]
  congr 1
  funext u
  cases s.fault? with
  | some fault => rfl
  | none =>
    simp only [reached_get]
    split
    · rfl
    · rfl

/-- Only a script without a fault that closes every branch succeeds. -/
theorem Exec.reached_script_ok {s : Script} {t u : Thread}
    (h : (script setting s).reached t = .ok u) :
    s.fault? = none ∧ ∃ v, (operations setting s.operations).reached t = .ok v ∧
      v.around = [] ∧ u = { v with alt := [] } := by
  rw [reached_script, bind_ok] at h
  obtain ⟨v, hv, h⟩ := h
  cases hfault : s.fault? with
  | some fault =>
    rw [hfault] at h
    cases h
  | none =>
    simp only [hfault] at h
    split at h
    · cases h
      exact ⟨rfl, v, hv, List.isEmpty_iff.mp (by assumption), rfl⟩
    · cases h

theorem Block.reached_evaluation (block : Block) (t : Thread) :
    (block.evaluation setting).reached t =
      (block.run setting).reached t >>= fun u => .ok { u with alt := [] } := by
  rw [evaluation, reached_then]
  rfl

/-- A script that is a block does what the block does, and fails as the block fails. -/
theorem Block.reached_script {block : Block} {s : Script} (hfault : s.fault? = none)
    (hops : block.operations = s.operations) (hdepth : block.depth ≤ setting.maxDepth) {t : Thread}
    (hstart : t.around = []) (hon : t.executing = true) :
    (Exec.script setting s).reached t = (block.evaluation setting).reached t := by
  rw [Exec.reached_script, reached_evaluation, ← hops, block.agrees t hon (by simpa [hstart])]
  cases hrun : (block.run setting).reached t with
  | error failure => rfl
  | ok u =>
    have haround := ((block.ignoresFlags_run setting).flags_reached hrun).1
    simp only [ok_then, hfault]
    rw [haround, hstart]
    rfl

/-- A script that succeeds leaves no branch open and nothing on the second stack. -/
theorem Exec.flags_of_script {s : Script} {t u : Thread}
    (h : (script setting s).reached t = .ok u) (hstart : t.around = [])
    (hon : t.executing = true) : u.around = [] ∧ u.executing = true ∧ u.alt = [] := by
  obtain ⟨-, v, hv, hclosed, rfl⟩ := reached_script_ok h
  obtain ⟨block, hops, hdepth⟩ := Block.exists_of_reached hv hclosed hstart
  rw [← hops, block.agrees t hon (by simpa [hstart])] at hv
  exact ⟨hclosed, ((block.ignoresFlags_run setting).flags_reached hv).2.trans hon, rfl⟩

/-- A script succeeds exactly if it has no fault, is a block no deeper than allowed, and the block
succeeds; and then both reach the same state. A script that is such a block also fails exactly as
the block does. -/
theorem reached_script_iff_block (setting : Setting) (s : Script) (main alt : Stack)
    (checked : List CheckedSignature) :
    (∀ final : Thread, (Exec.script setting s).reached { main, alt, checked } = .ok final ↔
      s.fault? = none ∧ ∃ block : Block, block.operations = s.operations ∧
        block.depth ≤ setting.maxDepth ∧
        (block.evaluation setting).reached { main, alt, checked } = .ok final) ∧
    ∀ block : Block, s.fault? = none → block.operations = s.operations →
      block.depth ≤ setting.maxDepth →
      (Exec.script setting s).reached { main, alt, checked } =
        (block.evaluation setting).reached { main, alt, checked } := by
  refine ⟨fun final => ⟨fun h => ?_, ?_⟩, fun block hfault hops hdepth => ?_⟩
  · obtain ⟨hfault, v, hv, hclosed, -⟩ := Exec.reached_script_ok h
    obtain ⟨block, hops, hdepth⟩ := Block.exists_of_reached hv hclosed rfl
    refine ⟨hfault, block, hops, hdepth, ?_⟩
    rw [← h]
    exact (Block.reached_script hfault hops hdepth rfl rfl).symm
  · rintro ⟨hfault, block, hops, hdepth, h⟩
    rw [← h]
    exact Block.reached_script hfault hops hdepth rfl rfl
  · exact Block.reached_script hfault hops hdepth rfl rfl

/-- `1 IF 2 ELSE NOTIF NOP ENDIF ELSE 3 ENDIF` -/
def twoElses : Block :=
  .plain (.code 0x51) rfl (.conditional true
    (.orElse (.plain (.code 0x52) rfl .done)
      (.orElse (.conditional false (.last (.plain (.code 0x61) rfl .done)) .done)
        (.last (.plain (.code 0x53) rfl .done)))) .done)

theorem reached_script_two_elses :
    let s : Script := .ofOperations twoElses.operations
    let setting : Setting := { maxDepth := 2 }
    s.fault? = none ∧ twoElses.operations = s.operations ∧ twoElses.depth ≤ setting.maxDepth ∧
      (Exec.script setting s).reached {} = .ok { main := [[3], [2]] } ∧
      (Exec.script setting s).reached {} = (twoElses.evaluation setting).reached {} := by
  intro s setting
  have hdepth : twoElses.depth ≤ setting.maxDepth := by decide
  have hsame := (reached_script_iff_block setting s [] [] []).2 twoElses rfl rfl hdepth
  have hblock : (twoElses.evaluation setting).reached {} = .ok { main := [[3], [2]] } := by rfl
  exact ⟨rfl, rfl, hdepth,
    ((reached_script_iff_block setting s [] [] []).1 _).mpr ⟨rfl, twoElses, rfl, hdepth, hblock⟩,
    hsame⟩

end Utxo
