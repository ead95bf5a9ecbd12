import Utxo.Proofs.Inspection.Revealing

/-!
# How deep inspections go

The levels that are left bound how many reports stand in each other, whatever the payloads hold.
Where none is left, only the output in question fails.
-/

namespace Utxo

variable {ρ σ : Type}

def Embedded.map (f : ρ → σ) : Embedded ρ → Embedded σ
  | transaction report => .transaction (f report)
  | actionScript class? content? => .actionScript class? content?

namespace LockingFindings

def map (f : ρ → σ) (found : LockingFindings ρ) : LockingFindings σ :=
  { found with embedded? := found.embedded?.map (Embedded.map f) }

def IsTooDeep (found : LockingFindings ρ) : Prop :=
  ∃ e, found.failure? = some e ∧ e.isDepthLimit = true

/-- What is found with fewer levels left is what is found with more, unless the script fails for
want of levels. Of a transaction that stands in the script only the transaction is compared. -/
structure CutOf (found full : LockingFindings TransactionReport) : Prop where
  class? : found.class? = full.class?
  same : found.IsTooDeep ∨ found.map (·.transaction) = full.map (·.transaction)
  embedded? : found.failure? ≠ none → found.embedded? = none

end LockingFindings

/-! ## Fewer levels -/

theorem TransactionReport.RevealedBy.transaction_eq {limit : Nat} {told full : TransactionReport}
    (h : told.RevealedBy limit full) : told.transaction = full.transaction := by
  cases h
  rfl

theorem Embedded.map_of_related {R : ρ → ρ → Prop} {f : ρ → σ} (hR : ∀ r r', R r r' → f r = f r')
    {carried? full? : Option (Embedded ρ)} (h : Option.Rel (Related R) carried? full?) :
    carried?.map (map f) = full?.map (map f) := by
  cases h with
  | none => rfl
  | some h =>
    cases h with
    | transaction h => exact congrArg (fun r => some (transaction r)) (hR _ _ h)
    | actionScript => rfl

theorem LockingFindings.RevealedBy.cutOf {limit : Nat}
    {found full : LockingFindings TransactionReport}
    (h : found.RevealedBy limit (TransactionReport.RevealedBy limit) full)
    (hfailed : found.failure? ≠ none → found.embedded? = none) : found.CutOf full := by
  cases h with
  | cut he _ =>
    refine ⟨rfl, .inl ⟨_, rfl, ?_⟩, hfailed⟩
    rcases he with rfl | rfl <;> rfl
  | kept hembedded =>
    refine ⟨rfl, .inr ?_, hfailed⟩
    unfold map
    rw [Embedded.map_of_related (fun _ _ hreport => hreport.transaction_eq) hembedded]

namespace Inspector

variable {i : Inspector} {s : Script} {levels levels' : Nat}

theorem findings_cut (s : Script) (hle : levels ≤ levels') :
    ((i.atLevel levels).findings s).CutOf ((i.atLevel levels').findings s) := by
  have h : Below i.context.limit (i.atLevel levels) (i.atLevel levels') :=
    ⟨⟨rfl, hle, rfl, rfl⟩, rfl⟩
  exact (h.findings s).cutOf ((i.atLevel levels).findings_tellsOf s).failed

/-! ## No level left -/

/-- An inspection is made of inspections by inspectors that are one level deeper. -/
theorem inspect_eq (i : Inspector) : i.inspect = i.inspectBy (fun source => do
    let context ← i.context.nested.mapError .payload
    { i with context }.inspect source) := by
  funext raw
  show i.inspectBy (i.below i.context.levels) raw = _
  unfold PayloadContext.nested
  cases i.context.levels with
  | zero => rfl
  | succ levels =>
    rw [below_succ]
    rfl

theorem findings_none_left (h : i.context.levels = 0) :
    (i.findings s).embedded? = none ∧
      ∀ content, (i.findings s).content? = some content →
        content.message? = none ∧ content.carried? = none := by
  have htells := i.findings_tellsOf s
  have hnone (content : Content) (hcontent : (i.findings s).content? = some content) :
      content.message? = none ∧ content.carried? = none := by
    obtain ⟨p, -, hcontent⟩ := (htells.content? content).mp hcontent
    obtain ⟨e, -, hcontent⟩ := content?_ok hcontent
    obtain ⟨-, code, b, hdecode⟩ := Envelope.content?_ok hcontent
    obtain ⟨hkind, -, -, hcarried⟩ := PayloadContext.decode_ok hdecode
    exact ⟨by simp [Content.message?, hkind, hcarried h], hcarried h⟩
  refine ⟨?_, hnone⟩
  cases hembedded : (i.findings s).embedded? with
  | none => rfl
  | some embedded =>
    obtain ⟨content, hcontent, hresolve⟩ := (htells.embedded? embedded).mp hembedded
    obtain ⟨message, hmessage, -⟩ := resolveBy_ok hresolve
    rw [(hnone content hcontent).1] at hmessage
    cases hmessage

/-- The transaction that a script carries, whatever comes of it. -/
def carriedSource? (i : Inspector) (s : Script) : Option Bytes := do
  (← (← (i.findings s).content?).message?).transaction?

theorem embedded?_of_carriedSource? {source : Bytes} {report : TransactionReport}
    (hlevels : i.context.levels = levels + 1) (hsource : i.carriedSource? s = some source)
    (hreport : (i.atLevel levels).inspect source = .ok report) :
    (i.findings s).embedded? = some (.transaction report) := by
  simp only [carriedSource?, Option.bind_eq_bind, Option.bind_eq_some_iff] at hsource
  obtain ⟨content, hcontent, message, hmessage, htransaction⟩ := hsource
  refine ((i.findings_tellsOf s).embedded? _).mpr ⟨content, hcontent, ?_⟩
  unfold resolve
  rw [hlevels, below_succ]
  simp only [resolveBy, hmessage, htransaction, hreport]
  rfl

end Inspector

open Inspector

/-- However payloads are decoded, there are at most as many reports in each other as the limit says,
and in the innermost of them nothing is carried any further. Where the limit keeps something from
being found, only the script that holds it fails. -/
theorem inspect_depth_le (i : Inspector) (limit : Nat) :
    let top : Inspector := { i with context := i.context.withLimit limit }
    (∀ raw report, top.inspect raw = .ok report → ∀ n inner, report.Carries n inner →
      n ≤ limit ∧
      (n = limit → ∀ output ∈ inner.outputs, output.findings.embedded? = none ∧
        ∀ content, output.findings.content? = some content →
          content.message? = none ∧ content.carried? = none) ∧
      inner.outputs.map (·.findings) = inner.transaction.outputs.map fun output =>
        (top.atLevel (limit - n)).findings output.locking) ∧
    ∀ levels ≤ limit,
      ((top.atLevel levels).inspect = (top.atLevel levels).inspectBy fun source => do
        let context ← (top.atLevel levels).context.nested.mapError .payload
        { top with context }.inspect source) ∧
      (∀ source e, (top.atLevel levels).inspect source = .error e ↔
        ∃ fault, Transaction.decode source = .error fault ∧ e = .transaction fault) ∧
      ∀ s, ((top.atLevel levels).findings s).CutOf (top.findings s) := by
  intro top
  refine ⟨fun raw report h n inner hcarries => ?_,
    fun levels hle => ⟨inspect_eq _, fun _ _ => inspect_error, ?_⟩⟩
  · obtain ⟨hle, source, hinspect⟩ := hcarries.inspected h
    have hfindings := findings_of_inspect hinspect
    refine ⟨hle, fun hn output houtput => ?_, hfindings⟩
    have hfound := List.mem_map_of_mem (f := (·.findings)) houtput
    rw [hfindings] at hfound
    obtain ⟨original, -, hfound⟩ := List.mem_map.mp hfound
    rw [← hfound]
    exact findings_none_left (by show limit - n = 0; omega)
  · intro s
    exact findings_cut s hle

/-- The decoder makes every payload one that carries the whole transaction again. -/
theorem inspect_depth_le_bomb :
    let raw : Bytes :=
      [1, 0, 0, 0, 0, 1, 0, 0, 0, 0, 0, 0, 0, 0, 0x10, 0x00, 0x6a, 0x02, 0xbd, 0x01, 0x51,
        0x03, 0x54, 0x4b, 0x4e, 0x53, 0x00, 0x02, 0x4d, 0x31, 0x00, 0, 0, 0, 0]
    let schemas : SchemaSet :=
      { actions := { payloads := [{ code? := some ⟨"M1"⟩, name := "Message" }] }
        messages := { payloads := [{ code? := some ⟨"1"⟩, name := "Offer" }] } }
    let decoder : PayloadDecoder := fun _ _ _ =>
      .ok [("MessageCode", .uint 1), ("Payload", .bytes raw)]
    let i : Inspector := { context := { schemas, decoder, limit := 2 } }
    ∃ report inner, i.inspect raw = .ok report ∧ report.Carries 2 inner ∧
      ∀ output ∈ inner.outputs, output.findings.embedded? = none := by
  intro raw schemas decoder i
  let tx : Transaction :=
    { version := 1
      outputs := [{ satoshis := 0, locking := .decode (raw.extract 15 31), range := ⟨6, 31⟩ }]
      range := ⟨0, 35⟩ }
  have hdecode : Transaction.decode raw = .ok tx := by decide +kernel
  let s := Script.decode (raw.extract 15 31)
  have hinspect (levels : Nat) : ∃ r, (i.atLevel levels).inspect raw = .ok r :=
    ⟨_, inspectBy_ok.mpr ⟨tx, hdecode, rfl⟩⟩
  have hsource₁ : (i.atLevel 1).carriedSource? s = some raw := by decide +kernel
  have hsource₂ : (i.atLevel 2).carriedSource? s = some raw := by decide +kernel
  have hnext {levels : Nat} {outer inner : TransactionReport}
      (hsource : (i.atLevel (levels + 1)).carriedSource? s = some raw)
      (houter : (i.atLevel (levels + 1)).inspect raw = .ok outer)
      (hinner : (i.atLevel levels).inspect raw = .ok inner) :
      ∃ output ∈ outer.outputs, output.findings.embedded? = some (.transaction inner) := by
    obtain ⟨tx', hdecode', rfl⟩ := inspectBy_ok.mp houter
    rw [hdecode] at hdecode'
    cases hdecode'
    exact ⟨_, List.mem_singleton.mpr rfl, embedded?_of_carriedSource? rfl hsource hinner⟩
  obtain ⟨outer, houter⟩ := hinspect 2
  obtain ⟨middle, hmiddle⟩ := hinspect 1
  obtain ⟨inner, hinner⟩ := hinspect 0
  obtain ⟨_, houtput₂, hembedded₂⟩ := hnext hsource₂ houter hmiddle
  obtain ⟨_, houtput₁, hembedded₁⟩ := hnext hsource₁ hmiddle hinner
  have hcarries : outer.Carries 2 inner :=
    .deeper (.deeper .itself houtput₂ hembedded₂) houtput₁ hembedded₁
  obtain ⟨hreports, -⟩ := inspect_depth_le i 2
  obtain ⟨-, hnone, -⟩ := hreports raw outer houter 2 inner hcarries
  exact ⟨outer, inner, houter, hcarries, fun output houtput => (hnone rfl output houtput).1⟩

end Utxo
