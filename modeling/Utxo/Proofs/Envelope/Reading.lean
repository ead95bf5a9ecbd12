import Utxo.Envelope.Basic
import Utxo.Proofs.Script.Numbers
import Utxo.Proofs.Script.Pushes

/-!
# What envelopes are read from

A reader of pushes finds an envelope exactly where the pushes stand that the envelope is made of,
and it leaves the operations behind them.
-/

namespace Utxo

/-! ## Pushes in a row -/

namespace PushReader

variable {ops rest : List Operation} {part countPart : String} {operand : Bytes} {n : Nat}
  {operands : List Bytes}

theorem next_ok : (next part).runFrom ops = (.ok operand, rest) ↔
    ∃ p : Push, p.operand = operand ∧ ops = p.operation :: rest := by
  rw [next, next?]
  constructor
  · intro h
    cases ops with
    | nil => simp [Stateful.runFrom_bind] at h
    | cons op more =>
      cases hop : op.operand? with
      | none => simp [Stateful.runFrom_bind, hop] at h
      | some data =>
        simp only [Stateful.runFrom_bind, Stateful.runFrom_get, hop, Stateful.runFrom_set,
          Stateful.runFrom_pure, Prod.mk.injEq, Except.ok.injEq] at h
        obtain ⟨rfl, rfl⟩ := h
        exact ⟨⟨op, data, hop⟩, rfl, rfl⟩
  · rintro ⟨⟨op, data, hop⟩, rfl, rfl⟩
    simp only [Stateful.runFrom_bind, Stateful.runFrom_get, hop, Stateful.runFrom_set,
      Stateful.runFrom_pure]

theorem count_ok : (count part).runFrom ops = (.ok n, rest) ↔
    ∃ p : Push, ScriptNumber.Spells p.operand n ∧ n ≤ rest.length ∧
      ops = p.operation :: rest := by
  rw [count]
  simp only [Stateful.runFrom_bind_ok, Stateful.runFrom_get, next_ok, ScriptNumber.spells_iff]
  constructor
  · rintro ⟨operand, more, ⟨p, rfl, rfl⟩, left, more, hleft, h⟩
    cases hleft
    split at h
    · rename_i m hm
      split at h
      · rename_i hle
        cases h
        exact ⟨p, hm, hle, rfl⟩
      · cases h
    · cases h
  · rintro ⟨p, hn, hle, rfl⟩
    refine ⟨_, _, ⟨p, rfl, rfl⟩, _, _, rfl, ?_⟩
    rw [hn]
    simp [hle]

theorem times_ok : (times part n).runFrom ops = (.ok operands, rest) ↔
    ∃ items : List Push, items.length = n ∧ items.map Push.operand = operands ∧
      ops = items.map Push.operation ++ rest := by
  induction n generalizing ops operands rest with
  | zero =>
    simp only [times, Stateful.runFrom_pure, Prod.mk.injEq, Except.ok.injEq]
    constructor
    · rintro ⟨rfl, rfl⟩
      exact ⟨[], rfl, rfl, rfl⟩
    · rintro ⟨items, hlength, rfl, rfl⟩
      rw [List.eq_nil_of_length_eq_zero hlength]
      exact ⟨rfl, rfl⟩
  | succ n ih =>
    simp only [times, Stateful.runFrom_bind_ok, next_ok, ih, Stateful.runFrom_pure, Prod.mk.injEq,
      Except.ok.injEq]
    constructor
    · rintro ⟨_, _, ⟨p, rfl, rfl⟩, _, _, ⟨items, hlength, rfl, rfl⟩, rfl, rfl⟩
      exact ⟨p :: items, by rw [List.length_cons, hlength], rfl, rfl⟩
    · rintro ⟨items, hlength, rfl, rfl⟩
      obtain ⟨p, items, rfl⟩ := List.exists_cons_of_length_eq_add_one hlength
      exact ⟨_, _, ⟨p, rfl, rfl⟩, _, _, ⟨items, by simpa using hlength, rfl, rfl⟩, rfl, rfl⟩

/-- The bound on the count is no condition: the pushes that are counted are there. -/
theorem counted_ok : (counted countPart part).runFrom ops = (.ok operands, rest) ↔
    ∃ (count : Push) (items : List Push), ScriptNumber.Spells count.operand items.length ∧
      items.map Push.operand = operands ∧
      ops = count.operation :: (items.map Push.operation ++ rest) := by
  simp only [counted, Stateful.runFrom_bind_ok, count_ok, times_ok]
  constructor
  · rintro ⟨_, _, ⟨count, hcount, -, rfl⟩, items, rfl, rfl, rfl⟩
    exact ⟨count, items, hcount, rfl, rfl⟩
  · rintro ⟨count, items, hcount, rfl, rfl⟩
    refine ⟨_, _, ⟨count, hcount, ?_, rfl⟩, items, rfl, rfl, rfl⟩
    simp

end PushReader

/-! ## The newer form -/

/-- The pushes that an envelope of the newer form is made of. -/
structure EnvelopeV1.Body where
  protocolCount : Push
  protocols : List Push
  dataCount : Push
  data : List Push
  countsProtocols : ScriptNumber.Spells protocolCount.operand protocols.length
  countsData : ScriptNumber.Spells dataCount.operand data.length

namespace EnvelopeV1

namespace Body

def operations (body : Body) : List Operation :=
  body.protocolCount.operation :: (body.protocols.map Push.operation ++
    body.dataCount.operation :: body.data.map Push.operation)

def envelope (body : Body) : EnvelopeV1 where
  protocols := (body.protocols.map Push.operand).map Utf8.decode
  data := body.data.map Push.operand

theorem length_operations (body : Body) :
    body.operations.length = 2 + body.envelope.protocols.length + body.envelope.data.length := by
  simp only [operations, envelope, List.length_cons, List.length_append, List.length_map]
  omega

theorem finds (body : Body) : ∀ op ∈ body.operations, Operation.read.Finds op.encode op := by
  have hitems : ∀ items : List Push, ∀ op ∈ items.map Push.operation,
      Operation.read.Finds op.encode op := fun items => List.forall_mem_map.mpr fun p _ => p.finds
  simp only [operations, List.forall_mem_cons, List.forall_mem_append]
  exact ⟨body.protocolCount.finds, hitems _, body.dataCount.finds, hitems _⟩

end Body

theorem read_ok {ops rest : List Operation} {e : EnvelopeV1} :
    read.runFrom ops = (.ok e, rest) ↔
      ∃ body : Body, body.envelope = e ∧ ops = body.operations ++ rest := by
  simp only [read, Stateful.runFrom_bind_ok, PushReader.counted_ok, Stateful.runFrom_pure,
    Prod.mk.injEq, Except.ok.injEq]
  constructor
  · rintro ⟨_, _, ⟨count, items, hcount, rfl, rfl⟩, _, _, ⟨count', items', hcount', rfl, rfl⟩,
      rfl, rfl⟩
    exact ⟨⟨count, items, count', items', hcount, hcount'⟩, by simp [Body.envelope],
      by simp [Body.operations]⟩
  · rintro ⟨⟨count, items, count', items', hcount, hcount'⟩, rfl, rfl⟩
    exact ⟨_, _, ⟨count, items, hcount, rfl, by simp [Body.operations]⟩, _, _,
      ⟨count', items', hcount', rfl, rfl⟩, by simp [Body.envelope], rfl⟩

end EnvelopeV1

/-! ## The older form -/

/-- The pushes that an envelope of the older form is made of. -/
structure EnvelopeV0.Body where
  tag : Push
  header : Push
  payload : Push
  fields : EnvelopeHeader
  decodes : EnvelopeHeader.decode header.operand = .ok fields

namespace EnvelopeV0

namespace Body

def operations (body : Body) : List Operation :=
  [body.tag.operation, body.header.operation, body.payload.operation]

def envelope (body : Body) : EnvelopeV0 where
  protocol := Utf8.decode body.tag.operand
  header := body.fields
  data := body.payload.operand

end Body

theorem read_ok {ops rest : List Operation} {e : EnvelopeV0} :
    read.runFrom ops = (.ok e, rest) ↔
      ∃ body : Body, body.envelope = e ∧ ops = body.operations ++ rest := by
  simp only [read, Stateful.runFrom_bind_ok, Stateful.runFrom_blame_ok, Stateful.runFrom_done,
    PushReader.next_ok, Stateful.runFrom_pure, Prod.mk.injEq, Except.ok.injEq]
  constructor
  · rintro ⟨_, _, ⟨tag, rfl, rfl⟩, _, _, ⟨header, rfl, rfl⟩, fields, _, ⟨hfields, rfl⟩, _, _,
      ⟨payload, rfl, rfl⟩, rfl, rfl⟩
    exact ⟨⟨tag, header, payload, fields, hfields⟩, rfl, rfl⟩
  · rintro ⟨⟨tag, header, payload, fields, hfields⟩, rfl, rfl⟩
    exact ⟨_, _, ⟨tag, rfl, rfl⟩, _, _, ⟨header, rfl, rfl⟩, fields, _, ⟨hfields, rfl⟩, _, _,
      ⟨payload, rfl, rfl⟩, rfl, rfl⟩

end EnvelopeV0

/-! ## Either form -/

/-- The pushes of an envelope behind its marker. -/
inductive Envelope.Body where
  | v0 (body : EnvelopeV0.Body)
  | v1 (body : EnvelopeV1.Body)

namespace Envelope

namespace Body

def marker : Body → Bytes
  | v0 _ => markerV0
  | v1 _ => markerV1

def operations : Body → List Operation
  | v0 body => body.operations
  | v1 body => body.operations

def envelope : Body → Envelope
  | v0 body => .v0 body.envelope
  | v1 body => .v1 body.envelope

end Body

def IsMarker (marker : Bytes) : Prop := marker = markerV0 ∨ marker = markerV1

theorem Body.isMarker (body : Body) : IsMarker body.marker := by
  cases body with
  | v0 => exact .inl rfl
  | v1 => exact .inr rfl

variable {marker : Bytes} {ops rest : List Operation} {e : Envelope}

theorem read?_markerV1 : read? markerV1 = (fun e => some (.v1 e)) <$> EnvelopeV1.read := by
  rw [read?, if_pos rfl, map_eq_pure_bind]

theorem read?_markerV0 : read? markerV0 = (fun e => some (.v0 e)) <$> EnvelopeV0.read := by
  rw [read?, if_neg (by decide), if_pos rfl, map_eq_pure_bind]

theorem read?_of_not_isMarker (h : ¬IsMarker marker) : read? marker = pure none := by
  rw [IsMarker, not_or] at h
  rw [read?, if_neg h.2, if_neg h.1]

theorem read?_some_iff : (read? marker).runFrom ops = (.ok (some e), rest) ↔
    ∃ body : Body, body.marker = marker ∧ body.envelope = e ∧ ops = body.operations ++ rest := by
  constructor
  · intro h
    by_cases hmarker : IsMarker marker
    · rcases hmarker with rfl | rfl
      · rw [read?_markerV0, Stateful.runFrom_map_ok] at h
        obtain ⟨e', he, h⟩ := h
        obtain ⟨body, rfl, hops⟩ := EnvelopeV0.read_ok.mp h
        exact ⟨.v0 body, rfl, Option.some.inj he, hops⟩
      · rw [read?_markerV1, Stateful.runFrom_map_ok] at h
        obtain ⟨e', he, h⟩ := h
        obtain ⟨body, rfl, hops⟩ := EnvelopeV1.read_ok.mp h
        exact ⟨.v1 body, rfl, Option.some.inj he, hops⟩
    · rw [read?_of_not_isMarker hmarker] at h
      cases h
  · rintro ⟨body, rfl, rfl, hops⟩
    cases body with
    | v0 body =>
      have hread := EnvelopeV0.read_ok.mpr ⟨body, rfl, hops⟩
      exact read?_markerV0 ▸ Stateful.runFrom_map_ok.mpr ⟨_, rfl, hread⟩
    | v1 body =>
      have hread := EnvelopeV1.read_ok.mpr ⟨body, rfl, hops⟩
      exact read?_markerV1 ▸ Stateful.runFrom_map_ok.mpr ⟨_, rfl, hread⟩

/-- Behind a marker there is an envelope or there is an error. -/
theorem read?_ne_none (h : IsMarker marker) : (read? marker).runFrom ops ≠ (.ok none, rest) := by
  intro hnone
  rcases h with rfl | rfl
  · rw [read?_markerV0, Stateful.runFrom_map_ok] at hnone
    simp at hnone
  · rw [read?_markerV1, Stateful.runFrom_map_ok] at hnone
    simp at hnone

end Envelope

end Utxo
