import Utxo.Proofs.Envelope.Reading
import Utxo.Proofs.Text.Utf8
import Utxo.Proofs.Wire.Reading

/-!
# What is inside envelopes

The two forms of envelopes come to the action inside in different ways. They find the same action,
and they look for one behind the same tags.
-/

namespace Utxo

/-! ## Tags -/

/-- The bytes of the tags whose payloads are actions: "TKN" and "test.TKN". -/
def IsActionTag (tag : Bytes) : Prop :=
  tag = [0x54, 0x4b, 0x4e] ∨ tag = [0x74, 0x65, 0x73, 0x74, 0x2e, 0x54, 0x4b, 0x4e]

instance (tag : Bytes) : Decidable (IsActionTag tag) := inferInstanceAs (Decidable (_ ∨ _))

variable {t c p z : Bytes} {ops rest : List Operation} {context : PayloadContext}

/-- No malformed bytes become the text of a tag, since that would have U+FFFD in it. -/
theorem decode_mem_actionProtocols_iff :
    Utf8.decode t ∈ Envelope.actionProtocols ↔ IsActionTag t := by
  have hmain : Utf8.decode t = "TKN" ↔ t = Utf8.encode "TKN" := Utf8.decode_eq_iff (by decide)
  have htest : Utf8.decode t = "test.TKN" ↔ t = Utf8.encode "test.TKN" :=
    Utf8.decode_eq_iff (by decide)
  unfold Envelope.actionProtocols IsActionTag
  rw [List.mem_cons, List.mem_singleton, hmain, htest]
  rfl

/-! ## Which pushes become the tag -/

theorem EnvelopeV1.head?_protocols {e : EnvelopeV1}
    (h : EnvelopeV1.read.runFrom ops = (.ok e, rest)) (hne : e.protocols ≠ [])
    (hpush : ops[1]?.bind Operation.operand? = some t) :
    e.protocols.head? = some (Utf8.decode t) := by
  obtain ⟨body, rfl, rfl⟩ := read_ok.mp h
  unfold Body.envelope at hne ⊢
  unfold Body.operations at hpush
  cases hprotocols : body.protocols with
  | nil => simp [hprotocols] at hne
  | cons first more =>
    rw [hprotocols] at hpush
    have hoperand : first.operation.operand? = some t := hpush
    rw [first.pushes, Option.some.injEq] at hoperand
    rw [← hoperand]
    rfl

theorem EnvelopeV0.protocol_eq {e : EnvelopeV0} (h : EnvelopeV0.read.runFrom ops = (.ok e, rest))
    (hpush : ops[0]?.bind Operation.operand? = some t) : e.protocol = Utf8.decode t := by
  obtain ⟨body, rfl, rfl⟩ := read_ok.mp h
  have hoperand : body.tag.operation.operand? = some t := hpush
  rw [body.tag.pushes, Option.some.injEq] at hoperand
  rw [← hoperand]
  rfl

namespace Envelope

/-! ## Contents -/

/-- What is found behind a tag with a code and bytes. -/
def contentBehind (context : PayloadContext) (t c p : Bytes) :
    Except EnvelopeError (Option Content) :=
  if IsActionTag t then (some <$> context.decodeAction ⟨Utf8.decode c⟩ p).mapError .payload
  else .ok none

theorem content?_v0 {e : EnvelopeV0} (htag : e.protocol = Utf8.decode t) :
    content? context (.v0 e) = contentBehind context t e.header.identifier e.data := by
  unfold content? action? contentBehind
  simp only [htag, decode_mem_actionProtocols_iff]
  by_cases h : IsActionTag t
  · rw [if_pos h, if_pos h]
  · rw [if_neg h, if_neg h]

theorem content?_v1 {e : EnvelopeV1} (htag : e.protocols.head? = some (Utf8.decode t))
    (hz : ScriptNumber.decode? ScriptNumber.maxWidth z = some 0) (hdata : [z, c, p] <+: e.data) :
    content? context (.v1 e) = contentBehind context t c p := by
  rcases e with ⟨protocols, data⟩
  obtain ⟨protocols, rfl⟩ := List.head?_eq_some_iff.mp htag
  obtain ⟨more, rfl⟩ := hdata
  unfold content? action? contentBehind
  simp only [List.cons_append, hz, and_true, decode_mem_actionProtocols_iff]
  by_cases h : IsActionTag t
  · rw [if_pos h, if_pos h]
  · rw [if_neg h, if_neg h]

theorem content?_of_version_ne_zero {e : EnvelopeV1} (hdata : e.data.head? = some z)
    (hz : ScriptNumber.decode? ScriptNumber.maxWidth z ≠ some 0) :
    content? context (.v1 e) = .ok none := by
  rcases e with ⟨protocols, data⟩
  obtain ⟨data, rfl⟩ := List.head?_eq_some_iff.mp hdata
  have hnone : action? (.v1 ⟨protocols, z :: data⟩) = none := by
    simp only [action?]
    split
    · rename_i hitems
      cases hitems
      exact if_neg fun h => hz h.2
    · rfl
  rw [content?, hnone]

/-- Envelopes of both forms with one tag, one code and one payload have the same content, or none
unless the tag is one of those that are known. A newer one with another version has none. -/
theorem content?_agrees (context : PayloadContext) :
    (∀ (t c p z : Bytes) (ops rest ops' rest' : List Operation) (new : EnvelopeV1)
      (old : EnvelopeV0), z.length ≤ ScriptNumber.maxWidth → ScriptNumber.IsZero z →
      EnvelopeV1.read.runFrom ops = (.ok new, rest) → new.protocols ≠ [] →
      ops[1]?.bind Operation.operand? = some t → [z, c, p] <+: new.data →
      EnvelopeV0.read.runFrom ops' = (.ok old, rest') →
      ops'[0]?.bind Operation.operand? = some t → old.header.identifier = c → old.data = p →
      content? context (.v1 new) = content? context (.v0 old) ∧
      content? context (.v0 old) =
        if IsActionTag t then (some <$> context.decodeAction ⟨Utf8.decode c⟩ p).mapError .payload
        else .ok none) ∧
    (∀ (new : EnvelopeV1) (first : Bytes), new.data.head? = some first →
      ¬(first.length ≤ ScriptNumber.maxWidth ∧ ScriptNumber.IsZero first) →
      content? context (.v1 new) = .ok none) := by
  constructor
  · intro t c p z ops rest ops' rest' new old hlength hz hnew hne hfirst hdata hold htag hcode
      hpayload
    have hzero := ScriptNumber.decode?_eq_zero_iff.mpr ⟨hlength, hz⟩
    have hnewer : content? context (.v1 new) = contentBehind context t c p :=
      content?_v1 (EnvelopeV1.head?_protocols hnew hne hfirst) hzero hdata
    have holder : content? context (.v0 old) = contentBehind context t c p := by
      rw [content?_v0 (EnvelopeV0.protocol_eq hold htag), hcode, hpayload]
    rw [hnewer, holder]
    exact ⟨rfl, rfl⟩
  · intro new first hfirst hz
    apply content?_of_version_ne_zero hfirst
    exact fun hzero => hz (ScriptNumber.decode?_eq_zero_iff.mp hzero)

/-- The version is the bit of the sign alone, and the context knows no code. -/
theorem content?_agrees_negative_zero :
    let context : PayloadContext := { schemas := {} }
    let new : EnvelopeV1 :=
      { protocols := [Utf8.decode [0x54, 0x4b, 0x4e]], data := [[0x80], [0x43, 0x31], [7]] }
    let old : EnvelopeV0 :=
      { protocol := Utf8.decode [0x54, 0x4b, 0x4e]
        header := { identifier := [0x43, 0x31] }
        data := [7] }
    let code : PayloadCode := ⟨Utf8.decode [0x43, 0x31]⟩
    content? context (.v1 new) = content? context (.v0 old) ∧
      content? context (.v0 old) = .ok (some ⟨{ kind := .actions, code := code.current }, none⟩) ∧
      content? context (.v1 { new with data := [[1], [0x43, 0x31], [7]] }) = .ok none := by
  intro context new old code
  let tag : Push := ⟨.push .direct [0x54, 0x4b, 0x4e] (by decide), _, rfl⟩
  let payload : Push := ⟨.push .direct [7] (by decide), _, rfl⟩
  let newBody : EnvelopeV1.Body :=
    { protocolCount := ⟨.code 0x51, [1], rfl⟩
      protocols := [tag]
      dataCount := ⟨.code 0x53, [3], rfl⟩
      data := [⟨.push .direct [0x80] (by decide), _, rfl⟩,
        ⟨.push .direct [0x43, 0x31] (by decide), _, rfl⟩, payload]
      countsProtocols := by decide
      countsData := by decide }
  have hheader : EnvelopeHeader.decode [0x1a, 2, 0x43, 0x31] =
      .ok { identifier := [0x43, 0x31] } := by
    rw [EnvelopeHeader.decode, WireReader.foldToEnd_of_ne_nil (by simp)]
    exact WireReader.foldToEnd_nil
  let oldBody : EnvelopeV0.Body :=
    { tag, payload
      header := ⟨.push .direct [0x1a, 2, 0x43, 0x31] (by decide), _, rfl⟩
      fields := { identifier := [0x43, 0x31] }
      decodes := hheader }
  have hnew : EnvelopeV1.read.runFrom newBody.operations = (.ok new, []) :=
    EnvelopeV1.read_ok.mpr ⟨newBody, rfl, (List.append_nil _).symm⟩
  have hold : EnvelopeV0.read.runFrom oldBody.operations = (.ok old, []) :=
    EnvelopeV0.read_ok.mpr ⟨oldBody, rfl, (List.append_nil _).symm⟩
  obtain ⟨hsame, hother⟩ := content?_agrees context
  obtain ⟨hagrees, hcontent⟩ := hsame [0x54, 0x4b, 0x4e] [0x43, 0x31] [7] [0x80] _ [] _ [] new old
    (by decide) ⟨0, .inr rfl⟩ hnew (by simp [new]) rfl (List.prefix_refl _) hold rfl rfl rfl
  refine ⟨hagrees, ?_, hother _ [1] rfl ?_⟩
  · rw [hcontent, if_pos (by decide)]
    rfl
  · rw [← ScriptNumber.decode?_eq_zero_iff]
    decide

end Envelope

end Utxo
