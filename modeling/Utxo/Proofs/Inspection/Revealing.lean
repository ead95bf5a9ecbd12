import Utxo.Proofs.Inspection.Findings

/-!
# Inspections with more levels

Where an inspection has fewer levels, it gives up earlier, and there is no other difference: what it
found until then stays, and what needs no further level is found all the same.
-/

namespace Utxo

/-! ## Reports -/

/-- Whether the error tells that there are no more levels than `limit`. -/
def InspectionError.TellsLimit (limit : Nat) (e : InspectionError) : Prop :=
  e = .payload (.tooDeep limit) ∨ e = .envelope (.payload (.tooDeep limit))

/-- The same is carried, but for what is told of a transaction. -/
inductive Embedded.Related {ρ : Type} (R : ρ → ρ → Prop) : Embedded ρ → Embedded ρ → Prop
  | transaction {report report' : ρ} :
      R report report' → Related R (.transaction report) (.transaction report')
  | actionScript (class? : Option ScriptClass) (content? : Option Content) :
      Related R (.actionScript class? content?) (.actionScript class? content?)

/-- What was found with `limit` levels, next to what is found with more. -/
inductive LockingFindings.RevealedBy {ρ : Type} (limit : Nat) (R : ρ → ρ → Prop) :
    LockingFindings ρ → LockingFindings ρ → Prop
  | cut {class? : Option ScriptClass} {content? full? : Option Content}
      {embedded? : Option (Embedded ρ)} {e : InspectionError}
      {failure? : Option InspectionError} :
      e.TellsLimit limit → (∀ content, content? = some content → full? = some content) →
      RevealedBy limit R ⟨class?, content?, none, some e⟩ ⟨class?, full?, embedded?, failure?⟩
  | kept {class? : Option ScriptClass} {content? : Option Content}
      {embedded? full? : Option (Embedded ρ)} {failure? : Option InspectionError} :
      Option.Rel (Embedded.Related R) embedded? full? →
      RevealedBy limit R ⟨class?, content?, embedded?, failure?⟩ ⟨class?, content?, full?, failure?⟩

inductive OutputReport.RevealedBy {ρ : Type} (limit : Nat) (R : ρ → ρ → Prop) :
    OutputReport ρ → OutputReport ρ → Prop
  | output {index : Nat} {satoshis : UInt64} {range : ByteRange} {raw : Bytes}
      {found full : LockingFindings ρ} :
      found.RevealedBy limit R full →
      RevealedBy limit R ⟨index, satoshis, range, raw, found⟩ ⟨index, satoshis, range, raw, full⟩

/-- The reports differ only in outputs where levels were missing, or below which they were. -/
inductive TransactionReport.RevealedBy (limit : Nat) :
    TransactionReport → TransactionReport → Prop
  | report {id : TransactionId} {size : Nat} {transaction : Transaction}
      {inputs : List InputReport} {outputs full : List (OutputReport TransactionReport)} :
      List.Forall₂ (OutputReport.RevealedBy limit (RevealedBy limit)) outputs full →
      RevealedBy limit ⟨id, size, transaction, inputs, outputs⟩
        ⟨id, size, transaction, inputs, full⟩

/-! ## Outcomes -/

/-- The outcome where there are fewer levels, next to the outcome where there are more. The first
may be a failure that has to do with the levels, and it tells so. -/
inductive Revealed {ε α α' : Type} (tells : ε → Prop) (R : α → α' → Prop) :
    Except ε α → Except ε α' → Prop
  | cut {e : ε} {x : Except ε α'} : tells e → Revealed tells R (.error e) x
  | error (e : ε) : Revealed tells R (.error e) (.error e)
  | ok {a : α} {a' : α'} : R a a' → Revealed tells R (.ok a) (.ok a')

namespace Revealed

variable {ε ε' α α' β β' : Type} {tells : ε → Prop} {R : α → α' → Prop} {S : β → β' → Prop}
  {x y : Except ε α} {x' : Except ε α'}

theorem refl (x : Except ε α) : Revealed tells Eq x x := by
  cases x with
  | error e => exact .error e
  | ok a => exact .ok rfl

theorem bind {f : α → Except ε β} {f' : α' → Except ε β'} (hx : Revealed tells R x x')
    (hf : ∀ a a', R a a' → Revealed tells S (f a) (f' a')) :
    Revealed tells S (x >>= f) (x' >>= f') := by
  cases hx with
  | cut he => exact .cut he
  | error e => exact .error e
  | ok h => exact hf _ _ h

theorem map {f : α → β} (hx : Revealed tells Eq x y) : Revealed tells Eq (f <$> x) (f <$> y) := by
  cases hx with
  | cut he => exact .cut he
  | error e => exact .error e
  | ok h => exact .ok (congrArg f h)

theorem mapError {tells' : ε' → Prop} {word : ε → ε'} (hx : Revealed tells R x x')
    (hword : ∀ e, tells e → tells' (word e)) :
    Revealed tells' R (x.mapError word) (x'.mapError word) := by
  cases hx with
  | cut he => exact .cut (hword _ he)
  | error e => exact .error (word e)
  | ok h => exact .ok h

end Revealed

/-! ## Payloads -/

/-- The limit of `c` is `limit`, and `c'` has at least as many levels left. Payloads are decoded in
the same way. -/
structure PayloadContext.Below (limit : Nat) (c c' : PayloadContext) : Prop where
  limit : c.limit = limit
  levels : c.levels ≤ c'.levels
  schemas : c.schemas = c'.schemas
  decoder : c.decoder = c'.decoder

namespace PayloadContext.Below

variable {limit : Nat} {c c' : PayloadContext}

theorem nested (h : Below limit c c') :
    Revealed (· = .tooDeep limit) (Below limit) c.nested c'.nested := by
  unfold PayloadContext.nested
  cases hlevels : c.levels with
  | zero =>
    rw [h.limit]
    exact .cut rfl
  | succ levels =>
    obtain ⟨levels', hlevels'⟩ : ∃ levels', c'.levels = levels' + 1 :=
      Nat.exists_eq_add_of_le' (Nat.le_trans (Nat.le_add_left 1 levels) (hlevels ▸ h.levels))
    have hle : levels ≤ levels' := by
      have := h.levels
      omega
    rw [hlevels']
    exact .ok ⟨h.limit, hle, h.schemas, h.decoder⟩

theorem decodePayload (h : Below limit c c') (kind : PayloadKind) (code : PayloadCode)
    (b : Bytes) : c.decodePayload kind code b = c'.decodePayload kind code b := by
  unfold PayloadContext.decodePayload
  rw [h.schemas, h.decoder]

theorem decode (h : Below limit c c') (kind : PayloadKind) (code : PayloadCode) (b : Bytes) :
    Revealed (· = .tooDeep limit) Eq (c.decode kind code b) (c'.decode kind code b) := by
  unfold PayloadContext.decode
  rw [h.decodePayload]
  refine (Revealed.refl _).bind ?_
  rintro payload _ rfl
  cases payload.carried? with
  | none => exact .refl _
  | some carried =>
    refine h.nested.bind fun deeper deeper' hdeeper => ?_
    rw [hdeeper.decodePayload]
    exact .refl _

theorem content? (h : Below limit c c') (e : Envelope) :
    Revealed (· = .payload (.tooDeep limit)) Eq (e.content? c) (e.content? c') := by
  unfold Envelope.content?
  cases e.action? with
  | none => exact .refl _
  | some action =>
    exact (h.decode .actions action.1.current action.2).map.mapError fun _ he => congrArg _ he

end PayloadContext.Below

/-! ## Scripts -/

structure Inspector.Below (limit : Nat) (i i' : Inspector) : Prop where
  context : i.context.Below limit i'.context
  encoder : i.encoder = i'.encoder

namespace Inspector.Below

variable {limit : Nat} {i i' : Inspector} {inner inner' : TransactionInspector}
  {R : TransactionReport → TransactionReport → Prop}

theorem content? (h : Below limit i i') (class? : Option ScriptClass) :
    Revealed (· = .payload (.tooDeep limit)) Eq (i.content? class?) (i'.content? class?) := by
  unfold Inspector.content?
  split
  · exact h.context.content? _
  · exact .refl _

theorem resolveBy (h : Below limit i i')
    (hinner : ∀ source, Revealed (InspectionError.TellsLimit limit) R (inner source)
      (inner' source))
    (content : Content) :
    Revealed (InspectionError.TellsLimit limit) (Option.Rel (Embedded.Related R))
      (i.resolveBy inner content) (i'.resolveBy inner' content) := by
  unfold Inspector.resolveBy
  cases content.message? with
  | none => exact .ok .none
  | some message =>
    dsimp only
    split
    · rename_i source _
      exact (hinner source).bind fun _ _ hreport => .ok (.some (.transaction hreport))
    · rename_i source _ _
      have hnested : Revealed (InspectionError.TellsLimit limit) (PayloadContext.Below limit)
          (i.context.nested.mapError .payload) (i'.context.nested.mapError .payload) :=
        h.context.nested.mapError fun _ he => .inl (congrArg _ he)
      refine hnested.bind fun c c' hc => ?_
      rw [h.encoder]
      refine (Revealed.refl _).bind ?_
      rintro class? _ rfl
      have hdeeper : Below limit { i with context := c } { i' with context := c' } :=
        ⟨hc, h.encoder⟩
      have hcontent : Revealed (InspectionError.TellsLimit limit) Eq
          (({ i with context := c }.content? class?).mapError .envelope)
          (({ i' with context := c' }.content? class?).mapError .envelope) :=
        (hdeeper.content? class?).mapError fun _ he => .inr (congrArg _ he)
      refine hcontent.bind ?_
      rintro content? _ rfl
      exact .ok (.some (.actionScript class? content?))
    · exact .ok .none

theorem examine (h : Below limit i i')
    (hinner : ∀ source, Revealed (InspectionError.TellsLimit limit) R (inner source)
      (inner' source))
    (s : Script) : (i.examine inner s).RevealedBy limit R (i'.examine inner' s) := by
  unfold Inspector.examine
  rw [h.encoder]
  cases s.lockingClass? i'.encoder with
  | error e => exact .kept .none
  | ok class? =>
    have hcontent := h.content? class?
    dsimp only
    generalize i.content? class? = decoded at hcontent ⊢
    generalize i'.content? class? = decoded' at hcontent ⊢
    cases hcontent with
    | cut he =>
      have he := congrArg InspectionError.envelope he
      have hnone (full? : Option Content) (content : Content) (hcontent : none = some content) :
          full? = some content := absurd hcontent (Option.some_ne_none content).symm
      rcases decoded' with e | _ | content
      · exact .cut (.inr he) (hnone _)
      · exact .cut (.inr he) (hnone _)
      · dsimp only
        cases i'.resolveBy inner' content <;> exact .cut (.inr he) (hnone _)
    | error e => exact .kept .none
    | @ok content? _ heq =>
      subst heq
      cases content? with
      | none => exact .kept .none
      | some content =>
        have hresolve := h.resolveBy hinner content
        dsimp only
        generalize i.resolveBy inner content = carried at hresolve ⊢
        generalize i'.resolveBy inner' content = carried' at hresolve ⊢
        cases hresolve with
        | cut he => cases carried' <;> exact .cut he fun _ => id
        | error e => exact .kept .none
        | ok hembedded => exact .kept hembedded

/-! ## Transactions -/

/-- Levels have no part in whether an inspection fails, so no failure tells of them. -/
theorem inspectBy {tells : InspectionError → Prop} (h : Below limit i i')
    (hinner : ∀ source, Revealed (InspectionError.TellsLimit limit)
      (TransactionReport.RevealedBy limit) (inner source) (inner' source)) (raw : Bytes) :
    Revealed tells (TransactionReport.RevealedBy limit) (i.inspectBy inner raw)
      (i'.inspectBy inner' raw) := by
  unfold Inspector.inspectBy
  refine (Revealed.refl _).bind ?_
  rintro tx _ rfl
  have hinput (input : TransactionInput) (index : Nat) :
      i.inputReport raw input index = i'.inputReport raw input index := by
    unfold inputReport
    rw [h.encoder]
  simp only [hinput]
  refine .ok (.report ?_)
  rw [List.forall₂_map_left_iff, List.forall₂_map_right_iff, List.forall₂_same]
  exact fun output _ => .output (h.examine hinner output.1.locking)

theorem below {levels levels' : Nat} (h : Below limit i i') (hle : levels ≤ levels')
    (source : Bytes) :
    Revealed (InspectionError.TellsLimit limit) (TransactionReport.RevealedBy limit)
      (i.below levels source) (i'.below levels' source) := by
  induction levels generalizing levels' source with
  | zero =>
    unfold Inspector.below
    rw [h.context.limit]
    exact .cut (.inl rfl)
  | succ levels ih =>
    obtain ⟨levels', rfl⟩ := Nat.exists_eq_add_of_le' (Nat.le_trans (Nat.le_add_left 1 levels) hle)
    have hle := Nat.le_of_succ_le_succ hle
    have hdeeper : Below limit (i.atLevel levels) (i'.atLevel levels') :=
      ⟨⟨h.context.limit, hle, h.context.schemas, h.context.decoder⟩, h.encoder⟩
    exact hdeeper.inspectBy (fun source => ih hle source) source

theorem findings (h : Below limit i i') (s : Script) :
    (i.findings s).RevealedBy limit (TransactionReport.RevealedBy limit) (i'.findings s) :=
  h.examine (h.below h.context.levels) s

end Inspector.Below

open Inspector

/-- With a larger limit an inspection fails no more and no less, and its report tells the same of
all but the outputs that needed more levels. There, what was found before stays. -/
theorem inspect_revealed (i : Inspector) (raw : Bytes) {limit limit' : Nat}
    (hle : limit ≤ limit') :
    let top (limit : Nat) : Inspector := { i with context := i.context.withLimit limit }
    (∀ e, (top limit).inspect raw = .error e ↔ (top limit').inspect raw = .error e) ∧
    ∀ told full, (top limit).inspect raw = .ok told → (top limit').inspect raw = .ok full →
      told.RevealedBy limit full := by
  intro top
  have h : Inspector.Below limit (top limit) (top limit') := ⟨⟨rfl, hle, rfl, rfl⟩, rfl⟩
  have hinspect : Revealed (fun _ => False) (TransactionReport.RevealedBy limit)
      ((top limit).inspect raw) ((top limit').inspect raw) := h.inspectBy (h.below hle) raw
  refine ⟨fun e => ?_, fun told full htold hfull => ?_⟩
  · rw [inspect_error, inspect_error]
  · rw [htold, hfull] at hinspect
    cases hinspect with
    | ok hrevealed => exact hrevealed

/-- The output has an action with a message, which takes one level. -/
theorem inspect_revealed_message :
    let raw : Bytes :=
      [1, 0, 0, 0, 0, 1, 0, 0, 0, 0, 0, 0, 0, 0, 0x10, 0x00, 0x6a, 0x02, 0xbd, 0x01, 0x51,
        0x03, 0x54, 0x4b, 0x4e, 0x53, 0x00, 0x02, 0x4d, 0x31, 0x00, 0, 0, 0, 0]
    let schemas : SchemaSet :=
      { actions := { payloads := [{ code? := some ⟨"M1"⟩, name := "Message" }] } }
    let decoder : PayloadDecoder := fun _ _ _ => .ok [("MessageCode", .uint 1)]
    let top (limit : Nat) : Inspector := { context := { schemas, decoder, limit } }
    ∃ told full, (top 0).inspect raw = .ok told ∧ (top 1).inspect raw = .ok full ∧
      told.RevealedBy 0 full ∧
      told.outputs.map (·.findings.failure?) = [some (.envelope (.payload (.tooDeep 0)))] ∧
      full.outputs.map (·.findings.failure?) = [none] := by
  intro raw schemas decoder top
  let s := Script.decode (raw.extract 15 31)
  let tx : Transaction :=
    { version := 1
      outputs := [{ satoshis := 0, locking := s, range := ⟨6, 31⟩ }]
      range := ⟨0, 35⟩ }
  have hdecode : Transaction.decode raw = .ok tx := by decide +kernel
  have hfailed : ((top 0).findings s).failure? = some (.envelope (.payload (.tooDeep 0))) := by
    decide +kernel
  have hnone : ((top 1).findings s).failure? = none := by decide +kernel
  have htold : (top 0).inspect raw = .ok _ := inspectBy_ok.mpr ⟨tx, hdecode, rfl⟩
  have hfull : (top 1).inspect raw = .ok _ := inspectBy_ok.mpr ⟨tx, hdecode, rfl⟩
  obtain ⟨-, hrevealed⟩ := inspect_revealed (top 0) raw (by decide : 0 ≤ 1)
  exact ⟨_, _, htold, hfull, hrevealed _ _ htold hfull, congrArg (fun e => [e]) hfailed,
    congrArg (fun e => [e]) hnone⟩

end Utxo
