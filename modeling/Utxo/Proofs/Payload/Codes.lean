import Utxo.Proofs.Inspection.Findings
import Utxo.Proofs.Text.Utf8

/-!
# Codes of one value

Two codes are one if their texts are equal or if they spell equal numbers. So all ways to tell a
number, with or without zeros in front, as a number, a text or bytes, select the same type.
-/

namespace Utxo

/-! ## Numerals -/

/-- The text is the number in decimal digits, behind any number of zeros. -/
structure IsNumeral (text : String) (n : Nat) : Prop where
  ne_nil : text.toList ≠ []
  isDigit : ∀ c ∈ text.toList, c.isDigit
  value : Nat.ofDigitChars 10 text.toList 0 = n

theorem isNumeral_toString (n : Nat) : IsNumeral (toString n) n where
  ne_nil := by simp
  isDigit := by
    intro c hc
    rw [Nat.toString_eq_repr, Nat.toList_repr] at hc
    exact Nat.isDigit_of_mem_toDigits (by decide) (by decide) hc
  value := by
    rw [Nat.toString_eq_repr, Nat.toList_repr]
    exact Nat.ofDigitChars_toDigits (by decide) (by decide)

/-- Digits with the last one first have the value that they have when they are read in order. -/
theorem Radix.value_digitChars (cs : List Char) :
    value 10 (cs.reverse.map fun c => c.toNat - '0'.toNat) = Nat.ofDigitChars 10 cs 0 := by
  rw [Nat.ofDigitChars_eq_foldl, ← List.foldr_reverse]
  generalize cs.reverse = ds
  induction ds with
  | nil => rfl
  | cons c rest ih => rw [List.map_cons, value, ih, List.foldr_cons, Nat.add_comm]

namespace PayloadCode

variable {a b : PayloadCode} {text text' : String} {m n : Nat}

theorem number?_of_isNumeral (h : IsNumeral text n) (hn : n < UInt64.size) :
    number? ⟨text⟩ = some n := by
  obtain ⟨hne, hdigit, rfl⟩ := h
  unfold number?
  split
  · rename_i rest htext
    have hplus := hdigit '+' (htext ▸ List.mem_cons_self)
    exact absurd hplus (by decide)
  · simp only [Radix.value_digitChars]
    exact if_pos ⟨hne, List.all_eq_true.mpr hdigit, hn⟩

theorem matches_of_number? (ha : a.number? = some n) (hb : b.number? = some n) : a.Matches b :=
  .inr ⟨by rw [ha]; rfl, ha.trans hb.symm⟩

theorem matches_iff_of_isNumeral (h : IsNumeral text m) (h' : IsNumeral text' n)
    (hm : m < UInt64.size) (hn : n < UInt64.size) :
    Matches ⟨text⟩ ⟨text'⟩ ↔ m = n := by
  have hnumber := number?_of_isNumeral h hm
  have hnumber' := number?_of_isNumeral h' hn
  constructor
  · rintro (heq | ⟨-, heq⟩)
    · cases heq
      exact h.value.symm.trans h'.value
    · rw [hnumber, hnumber'] at heq
      exact Option.some.inj heq
  · rintro rfl
    exact matches_of_number? hnumber hnumber'

end PayloadCode

/-! ## Types that have a code -/

theorem RecordType.hasCode_congr {a b : PayloadCode} (h : a.Matches b) (type : RecordType) :
    type.hasCode a = type.hasCode b := by
  unfold hasCode
  cases type.code? with
  | none => rfl
  | some code =>
    refine decide_eq_decide.mpr ⟨fun ha => ha.trans h, fun hb => hb.trans h.symm⟩

theorem Schema.payload?_congr {a b : PayloadCode} (h : a.Matches b) (schema : Schema) :
    schema.payload? a = schema.payload? b := by
  unfold payload?
  rw [funext (RecordType.hasCode_congr h)]

/-! ## Values that tell a number -/

/-- The value is a number of 64 bits without a sign in front, or its digits, as a text or in
bytes. -/
inductive FieldValue.Tells : FieldValue → Nat → Prop
  | uint (n : UInt64) : Tells (uint n) n.toNat
  | int {n : Int64} : 0 ≤ n.toInt → Tells (int n) n.toInt.toNat
  | text {s : String} {n : Nat} : IsNumeral s n → n < UInt64.size → Tells (text s) n
  | bytes {s : String} {n : Nat} :
    IsNumeral s n → n < UInt64.size → Tells (bytes (Utf8.encode s)) n

theorem FieldValue.Tells.exists_code {v : FieldValue} {n : Nat} (h : v.Tells n) :
    ∃ code, v.code? = some code ∧ code.Matches (.ofNat n) := by
  have hmatches {s : String} {n : Nat} (hs : IsNumeral s n) (hn : n < UInt64.size) :
      PayloadCode.Matches ⟨s⟩ (.ofNat n) :=
    (PayloadCode.matches_iff_of_isNumeral hs (isNumeral_toString n) hn hn).mpr rfl
  cases h with
  | uint n => exact ⟨_, rfl, .refl _⟩
  | @int n hn =>
    refine ⟨_, rfl, ?_⟩
    obtain ⟨k, hk⟩ := Int.eq_ofNat_of_zero_le hn
    rw [hk]
    exact .refl _
  | text hs hn => exact ⟨_, rfl, hmatches hs hn⟩
  | @bytes s n hs hn =>
    refine ⟨⟨s⟩, ?_, hmatches hs hn⟩
    show some (PayloadCode.mk (Utf8.decode (Utf8.encode s))) = _
    rw [Utf8.decode_encode]

/-! ## Messages in actions -/

namespace PayloadContext

variable {c : PayloadContext} {kind : PayloadKind} {code : PayloadCode} {b : Bytes}

theorem type_decodePayload {p : Payload} (h : c.decodePayload kind code b = .ok p) :
    p.body?.map (·.type) = (c.schemas.get kind).payload? code := by
  simp only [decodePayload] at h
  split at h
  · rename_i hnone
    cases h
    exact hnone.symm
  · rename_i type htype
    obtain ⟨fields, -, h⟩ := bind_ok.mp h
    cases h
    exact htype.symm

theorem schemas_nested {deeper : PayloadContext} (h : c.nested = .ok deeper) :
    deeper.schemas = c.schemas := by
  unfold nested at h
  split at h
  · cases h
  · cases h
    rfl

/-- A payload that is carried is decoded as the type that its code has among its kind. -/
theorem exists_carried {content : Content} {carried : CarriedPayload}
    (h : c.decode kind code b = .ok content) (hcarried : content.payload.carried? = some carried) :
    ∃ inner, content.carried? = some inner ∧ inner.kind = carried.kind ∧
      inner.body?.map (·.type) = (c.schemas.get carried.kind).payload? carried.code := by
  unfold decode at h
  obtain ⟨payload, hpayload, h⟩ := bind_ok.mp h
  split at h
  · rename_i hnone
    cases h
    rw [hnone] at hcarried
    cases hcarried
  · rename_i carried' hsome
    obtain ⟨deeper, hnested, h⟩ := bind_ok.mp h
    obtain ⟨inner, hinner, h⟩ := bind_ok.mp h
    cases h
    rw [hsome] at hcarried
    cases hcarried
    refine ⟨inner, rfl, (decodePayload_ok hinner).1, ?_⟩
    rw [type_decodePayload hinner, schemas_nested hnested]

end PayloadContext

/-- The field of the action that says which message it carries. -/
def Payload.messageCode? (p : Payload) : Option FieldValue :=
  if p.kind = .actions ∧ p.name? = some "Message" then p.field? "MessageCode" else none

theorem Payload.carried?_of_messageCode? {p : Payload} {v : FieldValue} {code : PayloadCode}
    (h : p.messageCode? = some v) (hcode : v.code? = some code) :
    ∃ carried, p.carried? = some carried ∧ carried.kind = .messages ∧ carried.code = code := by
  unfold messageCode? at h
  split at h
  · rename_i hmessage
    obtain ⟨hkind, hname⟩ := hmessage
    have hlookup : carriers.lookup "Message" =
        some (.messages, "MessageCode", "MessagePayload") := by decide
    unfold carried?
    rw [if_pos hkind, hname]
    simp only [Option.bind_eq_bind, Option.bind_some, hlookup, h, hcode]
    exact ⟨_, rfl, rfl, rfl⟩
  · cases h

theorem Payload.selects_of_tells {p : Payload} {v : FieldValue} {n : Nat}
    (h : p.messageCode? = some v) (hv : v.Tells n) (schema : Schema) :
    ∃ carried, p.carried? = some carried ∧ carried.kind = .messages ∧
      schema.payload? carried.code = schema.payload? (.ofNat n) := by
  obtain ⟨code, hcode, hmatches⟩ := hv.exists_code
  obtain ⟨carried, hcarried, hkind, rfl⟩ := carried?_of_messageCode? h hcode
  exact ⟨carried, hcarried, hkind, schema.payload?_congr hmatches⟩

/-- Codes fall into classes: numerals of one value are one class, and no schema tells the codes of a
class apart. So a message in an action has the type that the number in the action selects, in
whatever way the action tells the number. -/
theorem PayloadCode.matches_respected :
    Equivalence Matches ∧
    (∀ text text' m n, IsNumeral text m → IsNumeral text' n → m < UInt64.size →
      n < UInt64.size → (Matches ⟨text⟩ ⟨text'⟩ ↔ m = n)) ∧
    (∀ (schema : Schema) (a b : PayloadCode), a.Matches b →
      schema.payload? a = schema.payload? b) ∧
    (∀ (schema : Schema) (p : Payload) v n, p.messageCode? = some v → v.Tells n →
      ∃ carried, p.carried? = some carried ∧ carried.kind = .messages ∧
        schema.payload? carried.code = schema.payload? (.ofNat n)) ∧
    ∀ (c : PayloadContext) code b content v n, c.decode .actions code b = .ok content →
      content.payload.messageCode? = some v → v.Tells n →
      ∃ message, content.carried? = some message ∧ message.kind = .messages ∧
        message.body?.map (·.type) = c.schemas.messages.payload? (.ofNat n) := by
  refine ⟨⟨.refl, .symm, .trans⟩, ?_, fun schema _ _ h => schema.payload?_congr h,
    fun schema _ _ _ h hv => Payload.selects_of_tells h hv schema, ?_⟩
  · intro text text' m n h h' hm hn
    exact matches_iff_of_isNumeral h h' hm hn
  · intro c code b content v n hdecode hcode hv
    obtain ⟨carried, hcarried, hkind, hselect⟩ :=
      Payload.selects_of_tells hcode hv c.schemas.messages
    obtain ⟨message, hmessage, hkind', htype⟩ := PayloadContext.exists_carried hdecode hcarried
    rw [hkind] at hkind' htype
    exact ⟨message, hmessage, hkind', htype.trans hselect⟩

/-- Of two types whose codes are the number seven, the first one is found for a text with zeros in
front. -/
theorem PayloadCode.matches_respected_padded :
    let message : RecordType :=
      { code? := some ⟨"M1"⟩, name := "Message"
        fields := [{ name := "MessageCode", type := "varchar" }] }
    let offer : RecordType := { code? := some ⟨"0007"⟩, name := "Offer" }
    let other : RecordType := { code? := some ⟨"7"⟩, name := "Other" }
    let c : PayloadContext :=
      { schemas := { actions := { payloads := [message] }
                     messages := { payloads := [offer, other] } } }
    Matches ⟨"007"⟩ ⟨"7"⟩ ∧
      ∃ content inner, c.decode .actions ⟨"M1"⟩ [0x0a, 3, 0x30, 0x30, 0x37] = .ok content ∧
        content.carried? = some inner ∧ inner.body?.map (·.type) = some offer := by
  intro message offer other c
  obtain ⟨-, hnumerals, -, -, hdecoded⟩ := matches_respected
  have hpadded : IsNumeral "007" 7 :=
    ⟨by decide, List.all_eq_true.mp (by decide), by decide⟩
  have hplain : IsNumeral "7" 7 :=
    ⟨by decide, List.all_eq_true.mp (by decide), by decide⟩
  have hmatches := (hnumerals "007" "7" 7 7 hpadded hplain (by decide) (by decide)).mpr rfl
  let action : Payload :=
    { kind := .actions, code := ⟨"M1"⟩
      body? := some ⟨message, [("MessageCode", .text "007")]⟩ }
  let inside : Payload := { kind := .messages, code := ⟨"007"⟩, body? := some ⟨offer, []⟩ }
  let content : Content := { payload := action, carried? := some inside }
  have haction : c.decodePayload .actions ⟨"M1"⟩ [0x0a, 3, 0x30, 0x30, 0x37] = .ok action := by
    with_unfolding_all rfl
  have hcarried : action.carried? = some ⟨.messages, ⟨"007"⟩, []⟩ := by with_unfolding_all rfl
  have hinside : (PayloadContext.mk c.schemas c.decoder 4 3).decodePayload .messages ⟨"007"⟩ [] =
      .ok inside := by
    with_unfolding_all rfl
  have hdecode : c.decode .actions ⟨"M1"⟩ [0x0a, 3, 0x30, 0x30, 0x37] = .ok content := by
    unfold PayloadContext.decode
    refine bind_ok.mpr ⟨action, haction, ?_⟩
    simp only [hcarried]
    exact bind_ok.mpr ⟨_, rfl, bind_ok.mpr ⟨inside, hinside, rfl⟩⟩
  obtain ⟨inner, hinner, -, htype⟩ := hdecoded c _ _ content (.text "007") 7 hdecode rfl
    (.text hpadded (by decide))
  exact ⟨hmatches, content, inner, hdecode, hinner, htype.trans (by decide)⟩

end Utxo
