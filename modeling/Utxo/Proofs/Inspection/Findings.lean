import Mathlib.Data.List.Forall2
import Utxo.Proofs.Inspection.Source

/-!
# What is found in outputs

An output is examined in stages: its script is classified, an envelope is decoded, and what a
message carries is followed. The first stage that fails is the last one, and all that the report
tells of the stages is what each of them gives on its own. No other output has a part in it.
-/

namespace Utxo

variable {ρ : Type}

/-- `inner` stands in the report, `n` reports deep. -/
inductive TransactionReport.Carries (report : TransactionReport) : Nat → TransactionReport → Prop
  | itself : report.Carries 0 report
  | deeper {n : Nat} {outer inner : TransactionReport} {output : OutputReport TransactionReport} :
      report.Carries n outer → output ∈ outer.outputs →
      output.findings.embedded? = some (.transaction inner) → report.Carries (n + 1) inner

/-! ## Payloads -/

theorem mapError_ok {ε ε' β : Type} {x : Except ε β} {word : ε → ε'} {b : β} :
    x.mapError word = .ok b ↔ x = .ok b := by
  cases x <;> simp [Except.mapError]

/-- The schema that a payload was decoded with has its type. -/
def Payload.IsTyped (schemas : SchemaSet) (p : Payload) : Prop :=
  ∀ body, p.body? = some body → body.type ∈ (schemas.get p.kind).payloads

/-- There is a message, and its type is one that the messages have under these names. -/
def Content.Delivers (schemas : SchemaSet) (names : List String) (content : Content) : Prop :=
  ∃ message body, content.message? = some message ∧ message.kind = .messages ∧
    message.body? = some body ∧ body.type ∈ schemas.messages.payloads ∧ body.type.name ∈ names

namespace PayloadContext

variable {c : PayloadContext} {kind : PayloadKind} {code : PayloadCode} {b : Bytes}
  {content : Content}

theorem decodePayload_ok {payload : Payload} (h : c.decodePayload kind code b = .ok payload) :
    payload.kind = kind ∧ payload.IsTyped c.schemas := by
  simp only [decodePayload] at h
  split at h
  · cases h
    exact ⟨rfl, nofun⟩
  · rename_i type htype
    obtain ⟨fields, -, h⟩ := bind_ok.mp h
    cases h
    refine ⟨rfl, fun body hbody => ?_⟩
    cases hbody
    exact List.mem_of_find?_eq_some htype

theorem decode_ok (h : c.decode kind code b = .ok content) :
    content.payload.kind = kind ∧ content.payload.IsTyped c.schemas ∧
      (∀ inner, content.carried? = some inner → inner.IsTyped c.schemas) ∧
      (c.levels = 0 → content.carried? = none) := by
  unfold decode at h
  obtain ⟨payload, hpayload, h⟩ := bind_ok.mp h
  obtain ⟨hkind, htyped⟩ := decodePayload_ok hpayload
  split at h
  · cases h
    exact ⟨hkind, htyped, nofun, fun _ => rfl⟩
  · obtain ⟨deeper, hnested, h⟩ := bind_ok.mp h
    obtain ⟨inner, hinner, h⟩ := bind_ok.mp h
    cases h
    unfold nested at hnested
    split at hnested
    · cases hnested
    · rename_i levels hlevels
      cases hnested
      refine ⟨hkind, htyped, ?_, fun hnone => ?_⟩
      · rintro _ ⟨⟩
        exact (decodePayload_ok hinner).2
      · rw [hlevels] at hnone
        cases hnone

end PayloadContext

theorem Content.isTyped_of_decode {c : PayloadContext} {kind : PayloadKind} {code : PayloadCode}
    {b : Bytes} {content : Content} {message : Payload} (h : c.decode kind code b = .ok content)
    (hmessage : content.message? = some message) : message.IsTyped c.schemas := by
  obtain ⟨-, hpayload, hcarried, -⟩ := PayloadContext.decode_ok h
  unfold message? at hmessage
  split at hmessage
  · cases hmessage
    exact hpayload
  · exact hcarried message (Option.filter_eq_some_iff.mp hmessage).1

theorem Content.delivers_of_messageBytes? {schemas : SchemaSet} {names : List String}
    {content : Content} {message : Payload} {field : String} {source : Bytes}
    (htyped : message.IsTyped schemas) (hmessage : content.message? = some message)
    (h : message.messageBytes? names field = some source) : content.Delivers schemas names := by
  simp only [Payload.messageBytes?, Option.bind_eq_bind, Option.bind_eq_some_iff] at h
  obtain ⟨name, hname, h⟩ := h
  split at h
  · rename_i hmatch
    obtain ⟨hkind, hmem⟩ := hmatch
    obtain ⟨body, hbody, rfl⟩ := Option.map_eq_some_iff.mp hname
    have htype := htyped body hbody
    rw [hkind] at htype
    exact ⟨message, body, hmessage, hkind, hbody, htype, hmem⟩
  · cases h

theorem Envelope.content?_ok {e : Envelope} {c : PayloadContext} {content : Content}
    (h : e.content? c = .ok (some content)) :
    (∃ tag ∈ actionProtocols, e.protocols.head? = some tag) ∧
      ∃ code b, c.decode .actions code b = .ok content := by
  unfold content? at h
  split at h
  · cases h
  · rename_i code b haction
    obtain ⟨found, hfound, h⟩ := bind_ok.mp (mapError_ok.mp h)
    cases h
    refine ⟨?_, _, _, hfound⟩
    cases e with
    | v0 e =>
      simp only [action?] at haction
      split at haction
      · exact ⟨e.protocol, ‹_›, rfl⟩
      · cases haction
    | v1 e =>
      simp only [action?] at haction
      split at haction
      · rename_i tag _ _ _ _ _ hprotocols _
        split at haction
        · rename_i hmatch
          exact ⟨tag, hmatch.1, by rw [protocols, hprotocols]; rfl⟩
        · cases haction
      · cases haction

/-! ## Stages -/

namespace LockingFindings

/-- What is found in a script with content, from what its content turns out to carry. -/
def following (class? : Option ScriptClass) (content : Content) :
    Except InspectionError (Option (Embedded ρ)) → LockingFindings ρ
  | .error e => { class?, content? := some content, failure? := some e }
  | .ok embedded? => { class?, content? := some content, embedded? }

variable {class? : Option ScriptClass} {content : Content}
  {carried : Except InspectionError (Option (Embedded ρ))}

@[simp] theorem class?_following : (following class? content carried).class? = class? := by
  cases carried <;> rfl

@[simp] theorem content?_following :
    (following class? content carried).content? = some content := by
  cases carried <;> rfl

@[simp] theorem embedded?_following {embedded : Embedded ρ} :
    (following class? content carried).embedded? = some embedded ↔
      carried = .ok (some embedded) := by
  cases carried <;> simp [following]

@[simp] theorem failure?_following {e : InspectionError} :
    (following class? content carried).failure? = some e ↔ carried = .error e := by
  cases carried <;> simp [following]

/-- What is found in a script, told stage by stage: each stage gives what it gives alone, and what
has failed is the first stage that does. Only an envelope of the protocols with actions has content,
and only some messages carry anything. -/
structure TellsOf (found : LockingFindings TransactionReport) (i : Inspector) (s : Script) :
    Prop where
  class? : ∀ p, found.class? = some p ↔ s.lockingClass? i.encoder = .ok (some p)
  content? : ∀ content, found.content? = some content ↔
    ∃ p, found.class? = some p ∧ i.content? (some p) = .ok (some content)
  embedded? : ∀ embedded, found.embedded? = some embedded ↔
    ∃ content, found.content? = some content ∧ i.resolve content = .ok (some embedded)
  failure? : ∀ e, found.failure? = some e ↔
    (∃ fault, s.lockingClass? i.encoder = .error fault ∧ e = .envelope fault) ∨
    (∃ p fault, found.class? = some p ∧ i.content? (some p) = .error fault ∧ e = .envelope fault) ∨
    ∃ content, found.content? = some content ∧ i.resolve content = .error e
  failed : found.failure? ≠ none → found.embedded? = none
  envelope : ∀ content, found.content? = some content →
    ∃ e, found.class? = some (.envelope e) ∧
      ∃ tag ∈ ["TKN", "test.TKN"], e.protocols.head? = some tag
  transaction : ∀ report, found.embedded? = some (.transaction report) →
    ∃ content, found.content? = some content ∧
      content.Delivers i.context.schemas ["Offer", "SignatureRequest"]
  actionScript : ∀ p content?, found.embedded? = some (.actionScript p content?) →
    ∃ content, found.content? = some content ∧
      content.Delivers i.context.schemas ["SettlementRequest"]

end LockingFindings

namespace Inspector

variable {i : Inspector} {inner : TransactionInspector} {content : Content} {s : Script}
  {found : LockingFindings TransactionReport} {levels : Nat}

def findings (i : Inspector) (s : Script) : LockingFindings TransactionReport :=
  i.examine (i.below i.context.levels) s

theorem content?_ok {class? : Option ScriptClass} (h : i.content? class? = .ok (some content)) :
    ∃ envelope, class? = some (.envelope envelope) ∧
      envelope.content? i.context = .ok (some content) := by
  unfold content? at h
  split at h
  · exact ⟨_, rfl, h⟩
  · cases h

/-- Each way through the stages, with what is found on it. -/
inductive Examined (i : Inspector) (inner : TransactionInspector) (s : Script) :
    LockingFindings TransactionReport → Prop
  | unclassified {e : EnvelopeError} : s.lockingClass? i.encoder = .error e →
      Examined i inner s { failure? := some (.envelope e) }
  | undecoded {class? : Option ScriptClass} {e : EnvelopeError} :
      s.lockingClass? i.encoder = .ok class? → i.content? class? = .error e →
      Examined i inner s { class?, failure? := some (.envelope e) }
  | bare {class? : Option ScriptClass} : s.lockingClass? i.encoder = .ok class? →
      i.content? class? = .ok none → Examined i inner s { class? }
  | content {class? : Option ScriptClass} {content : Content} :
      s.lockingClass? i.encoder = .ok class? → i.content? class? = .ok (some content) →
      Examined i inner s (.following class? content (i.resolveBy inner content))

theorem examined_examine (i : Inspector) (inner : TransactionInspector) (s : Script) :
    i.Examined inner s (i.examine inner s) := by
  unfold examine
  cases hclass : s.lockingClass? i.encoder with
  | error e => exact .unclassified hclass
  | ok class? =>
    cases hcontent : i.content? class? with
    | error e =>
      simp only [hcontent]
      exact .undecoded hclass hcontent
    | ok content? =>
      cases content? with
      | none =>
        simp only [hcontent]
        exact .bare hclass hcontent
      | some content =>
        have hfound : i.Examined inner s _ := .content hclass hcontent
        simp only [hcontent]
        cases hresolve : i.resolveBy inner content <;> rwa [hresolve] at hfound

theorem content?_none : i.content? none = .ok none := rfl

theorem Examined.class?_iff (h : i.Examined inner s found) (p : ScriptClass) :
    found.class? = some p ↔ s.lockingClass? i.encoder = .ok (some p) := by
  cases h with
  | unclassified hclass => simp [hclass]
  | undecoded hclass _ => simp [hclass]
  | bare hclass _ => simp [hclass]
  | content hclass _ => simp [hclass]

theorem Examined.content?_iff (h : i.Examined inner s found) (content : Content) :
    found.content? = some content ↔
      ∃ p, found.class? = some p ∧ i.content? (some p) = .ok (some content) := by
  cases h with
  | unclassified _ => simp
  | @undecoded class? _ _ hcontent => cases class? <;> simp_all
  | @bare class? _ hcontent => cases class? <;> simp_all
  | @content class? _ _ hcontent => cases class? <;> simp_all [content?_none]

theorem Examined.embedded?_iff (h : i.Examined inner s found)
    (embedded : Embedded TransactionReport) : found.embedded? = some embedded ↔
      ∃ content, found.content? = some content ∧
        i.resolveBy inner content = .ok (some embedded) := by
  cases h with
  | unclassified _ => simp
  | undecoded _ _ => simp
  | bare _ _ => simp
  | content _ _ => simp

theorem Examined.failure?_iff (h : i.Examined inner s found) (e : InspectionError) :
    found.failure? = some e ↔
      (∃ fault, s.lockingClass? i.encoder = .error fault ∧ e = .envelope fault) ∨
      (∃ p fault, found.class? = some p ∧ i.content? (some p) = .error fault ∧
        e = .envelope fault) ∨
      ∃ content, found.content? = some content ∧ i.resolveBy inner content = .error e := by
  cases h with
  | unclassified hclass => simp [hclass, eq_comm]
  | @undecoded class? _ hclass hcontent =>
    cases class? with
    | none => cases hcontent
    | some p => simp [hclass, hcontent, eq_comm]
  | @bare class? hclass hcontent => cases class? <;> simp_all
  | @content class? _ hclass hcontent => cases class? <;> simp_all [content?_none]

theorem Examined.embedded?_of_failure (h : i.Examined inner s found)
    (hfailure : found.failure? ≠ none) : found.embedded? = none := by
  cases h with
  | unclassified _ => rfl
  | undecoded _ _ => rfl
  | bare _ _ => rfl
  | @content class? content _ _ =>
    cases hresolve : i.resolveBy inner content with
    | error e => rfl
    | ok embedded? =>
      rw [hresolve] at hfailure
      exact absurd rfl hfailure

theorem resolveBy_ok {embedded : Embedded TransactionReport}
    (h : i.resolveBy inner content = .ok (some embedded)) :
    ∃ message, content.message? = some message ∧
      ((∃ source report, message.transaction? = some source ∧ inner source = .ok report ∧
          embedded = .transaction report) ∨
        ∃ source class? content?, message.actionScript? = some source ∧
          embedded = .actionScript class? content?) := by
  unfold resolveBy at h
  split at h
  · cases h
  · rename_i message hmessage
    refine ⟨message, hmessage, ?_⟩
    split at h
    · rename_i source htransaction
      obtain ⟨report, hreport, h⟩ := bind_ok.mp h
      cases h
      exact .inl ⟨source, report, htransaction, hreport, rfl⟩
    · rename_i source _ hscript
      obtain ⟨_, -, h⟩ := bind_ok.mp h
      obtain ⟨_, -, h⟩ := bind_ok.mp h
      obtain ⟨_, -, h⟩ := bind_ok.mp h
      cases h
      exact .inr ⟨source, _, _, hscript, rfl⟩
    · cases h

/-- A message that something stands in came from an envelope, through the decoder. -/
theorem Examined.isTyped (h : i.Examined inner s found) (hcontent : found.content? = some content)
    {message : Payload} (hmessage : content.message? = some message) :
    message.IsTyped i.context.schemas := by
  obtain ⟨p, -, hcontent⟩ := (h.content?_iff content).mp hcontent
  obtain ⟨e, -, hcontent⟩ := content?_ok hcontent
  obtain ⟨-, _, _, hdecode⟩ := Envelope.content?_ok hcontent
  exact Content.isTyped_of_decode hdecode hmessage

theorem findings_tellsOf (i : Inspector) (s : Script) : (i.findings s).TellsOf i s := by
  have h : i.Examined (i.below i.context.levels) s (i.findings s) := examined_examine _ _ _
  refine ⟨h.class?_iff, h.content?_iff, h.embedded?_iff, h.failure?_iff, h.embedded?_of_failure,
    ?_, ?_, ?_⟩
  · intro content hcontent
    obtain ⟨p, hclass, hcontent⟩ := (h.content?_iff content).mp hcontent
    obtain ⟨e, hp, hcontent⟩ := content?_ok hcontent
    exact ⟨e, hclass.trans hp, (Envelope.content?_ok hcontent).1⟩
  · intro report hembedded
    obtain ⟨content, hcontent, hresolve⟩ := (h.embedded?_iff _).mp hembedded
    obtain ⟨message, hmessage, ⟨source, _, hsource, _⟩ | ⟨_, _, _, _, hne⟩⟩ :=
      resolveBy_ok hresolve
    · exact ⟨content, hcontent,
        Content.delivers_of_messageBytes? (h.isTyped hcontent hmessage) hmessage hsource⟩
    · cases hne
  · intro p content? hembedded
    obtain ⟨content, hcontent, hresolve⟩ := (h.embedded?_iff _).mp hembedded
    obtain ⟨message, hmessage, ⟨_, _, _, _, hne⟩ | ⟨source, _, _, hsource, _⟩⟩ :=
      resolveBy_ok hresolve
    · cases hne
    · exact ⟨content, hcontent,
        Content.delivers_of_messageBytes? (h.isTyped hcontent hmessage) hmessage hsource⟩

/-! ## Reports in reports -/

theorem below_atLevel (j levels : Nat) : (i.atLevel j).below levels = i.below levels := by
  induction levels with
  | zero => rfl
  | succ levels ih =>
    show (i.atLevel levels).inspectBy ((i.atLevel j).below levels) = _
    rw [ih]
    rfl

/-- One level deeper, an inspection is an inspection with one level less. -/
theorem below_succ (levels : Nat) : i.below (levels + 1) = (i.atLevel levels).inspect := by
  funext raw
  unfold inspect
  rw [below_atLevel]
  rfl

theorem inspect_error {raw : Bytes} {e : InspectionError} :
    i.inspect raw = .error e ↔
      ∃ fault, Transaction.decode raw = .error fault ∧ e = .transaction fault := by
  unfold inspect inspectBy
  cases Transaction.decode raw with
  | error fault => simp [Except.mapError, bind, Except.bind, eq_comm]
  | ok tx => simp [Except.mapError]

theorem findings_of_inspect {raw : Bytes} {report : TransactionReport}
    (h : i.inspect raw = .ok report) : report.outputs.map (·.findings) =
      report.transaction.outputs.map fun output => i.findings output.locking := by
  obtain ⟨tx, -, rfl⟩ := inspectBy_ok.mp h
  have hfindings : tx.outputs.map (fun output => i.findings output.locking) =
      (tx.outputs.zipIdx.map Prod.fst).map fun output => i.findings output.locking := by
    rw [List.zipIdx_map_fst]
  rw [hfindings, List.map_map, List.map_map]
  rfl

theorem findings_transaction {report : TransactionReport}
    (h : (i.findings s).embedded? = some (.transaction report)) :
    ∃ levels source, i.context.levels = levels + 1 ∧
      (i.atLevel levels).inspect source = .ok report := by
  obtain ⟨content, -, hresolve⟩ := ((i.findings_tellsOf s).embedded? _).mp h
  obtain ⟨_, -, ⟨source, report', -, hsource, hreport⟩ | ⟨_, _, _, -, hne⟩⟩ :=
    resolveBy_ok hresolve
  · cases hreport
    cases hlevels : i.context.levels with
    | zero =>
      rw [hlevels] at hsource
      cases hsource
    | succ levels =>
      rw [hlevels, below_succ] at hsource
      exact ⟨levels, source, rfl, hsource⟩
  · cases hne

end Inspector

open Inspector

/-- Every report that is carried is an inspection of its own, with a level less for each report
around it. -/
theorem TransactionReport.Carries.inspected {i : Inspector} {raw : Bytes}
    {report inner : TransactionReport} {n : Nat} (h : i.inspect raw = .ok report)
    (hcarries : report.Carries n inner) :
    n ≤ i.context.levels ∧
      ∃ source, (i.atLevel (i.context.levels - n)).inspect source = .ok inner := by
  induction hcarries with
  | itself => exact ⟨Nat.zero_le _, raw, h⟩
  | @deeper n _ _ _ _ houtput hembedded ih =>
    -- The report around it is an inspection, so its outputs are known from their scripts alone.
    obtain ⟨hle, source, hinspect⟩ := ih
    have hfound := List.mem_map_of_mem (f := (·.findings)) houtput
    rw [findings_of_inspect hinspect] at hfound
    obtain ⟨output, -, hfound⟩ := List.mem_map.mp hfound
    rw [← hfound] at hembedded
    obtain ⟨levels, source, hlevels, hinspect⟩ := findings_transaction hembedded
    have hlevels : i.context.levels - n = levels + 1 := hlevels
    obtain rfl : levels = i.context.levels - (n + 1) := by omega
    exact ⟨by omega, source, hinspect⟩

/-- There is one report on each input and on each output, in their order, and what is found in an
output is told of its script alone. -/
structure TransactionReport.Covers (report : TransactionReport) (i : Inspector) : Prop where
  inputs : List.Forall₂ (fun (input : TransactionInput × Nat) (told : InputReport) =>
      told.index = input.2 ∧ told.range = input.1.range ∧
        told.class? = input.1.unlocking.unlockingClass? i.encoder)
    report.transaction.inputs.zipIdx report.inputs
  outputs : List.Forall₂
    (fun (output : TransactionOutput × Nat) (told : OutputReport TransactionReport) =>
      told.index = output.2 ∧ told.range = output.1.range ∧ told.satoshis = output.1.satoshis ∧
        told.findings.TellsOf i output.1.locking)
    report.transaction.outputs.zipIdx report.outputs

theorem Inspector.covers_of_inspect {i : Inspector} {raw : Bytes} {report : TransactionReport}
    (h : i.inspect raw = .ok report) : report.Covers i := by
  obtain ⟨tx, -, rfl⟩ := inspectBy_ok.mp h
  constructor
  · exact List.forall₂_map_right_iff.mpr (List.forall₂_same.mpr fun _ _ => ⟨rfl, rfl, rfl⟩)
  · exact List.forall₂_map_right_iff.mpr
      (List.forall₂_same.mpr fun _ _ => ⟨rfl, rfl, rfl, i.findings_tellsOf _⟩)

/-- Only bytes that are no transaction fail an inspection. Every report, however many stand around
it, tells of all inputs and outputs in their order, and a failure in one of the outputs takes
nothing from what was found there before and nothing from the others. -/
theorem inspect_covers (i : Inspector) (raw : Bytes) :
    ((∃ report, i.inspect raw = .ok report) ↔ ∃ tx, Transaction.decode raw = .ok tx) ∧
    ∀ report, i.inspect raw = .ok report → Transaction.decode raw = .ok report.transaction ∧
      ∀ n inner, report.Carries n inner → inner.Covers (i.atLevel (i.context.levels - n)) := by
  refine ⟨⟨?_, ?_⟩, fun report h => ⟨?_, fun n inner hcarries => ?_⟩⟩
  · rintro ⟨report, h⟩
    obtain ⟨tx, hdecode, -⟩ := inspectBy_ok.mp h
    exact ⟨tx, hdecode⟩
  · rintro ⟨tx, hdecode⟩
    exact ⟨_, inspectBy_ok.mpr ⟨tx, hdecode, rfl⟩⟩
  · obtain ⟨tx, hdecode, rfl⟩ := inspectBy_ok.mp h
    exact hdecode
  · obtain ⟨-, source, hinspect⟩ := hcarries.inspected h
    exact covers_of_inspect hinspect

/-- The first output announces an envelope that is not there, and the second has an envelope. -/
theorem inspect_covers_broken_envelope :
    let raw : Bytes := [1, 0, 0, 0, 0, 2] ++
      ([0, 0, 0, 0, 0, 0, 0, 0, 0x05, 0x00, 0x6a, 0x02, 0xbd, 0x01] ++
        [7, 0, 0, 0, 0, 0, 0, 0, 0x09, 0x00, 0x6a, 0x02, 0xbd, 0x01, 0x51, 0x01, 0x41, 0x00]) ++
      [0, 0, 0, 0]
    let i : Inspector := { context := { schemas := {} } }
    ∃ report, i.inspect raw = .ok report ∧ report.Covers i ∧
      report.outputs.map (·.findings.failure?.isSome) = [true, false] ∧
      report.outputs.map (·.findings.class?) =
        [none, some (.envelope (.v1 { protocols := ["A"], data := [] }))] := by
  intro raw i
  let broken := Script.decode [0x00, 0x6a, 0x02, 0xbd, 0x01]
  let whole := Script.decode [0x00, 0x6a, 0x02, 0xbd, 0x01, 0x51, 0x01, 0x41, 0x00]
  let tx : Transaction :=
    { version := 1
      outputs := [{ satoshis := 0, locking := broken, range := ⟨6, 20⟩ },
        { satoshis := 7, locking := whole, range := ⟨20, 38⟩ }]
      range := ⟨0, 42⟩ }
  have hdecode : Transaction.decode raw = .ok tx := by decide +kernel
  have hbroken : (i.findings broken).failure?.isSome = true ∧
      (i.findings broken).class? = none := by
    decide +kernel
  have hwhole : (i.findings whole).failure?.isSome = false ∧ (i.findings whole).class? =
      some (.envelope (.v1 { protocols := ["A"], data := [] })) := by
    decide +kernel
  obtain ⟨-, hreports⟩ := inspect_covers i raw
  have h : i.inspect raw = .ok _ := inspectBy_ok.mpr ⟨tx, hdecode, rfl⟩
  obtain ⟨-, hcovers⟩ := hreports _ h
  refine ⟨_, h, hcovers 0 _ .itself, ?_, ?_⟩
  · exact congrArg₂ (fun a b => [a, b]) hbroken.1 hwhole.1
  · exact congrArg₂ (fun a b => [a, b]) hbroken.2 hwhole.2

end Utxo
