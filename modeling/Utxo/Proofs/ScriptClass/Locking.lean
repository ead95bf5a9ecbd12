import Mathlib.Data.Option.Basic
import Utxo.Proofs.Envelope.Reading
import Utxo.Proofs.Text.Utf8
import Utxo.ScriptClass.Basic

/-!
# Which bytes are which class

The bytes of a locking script are of one of four kinds: they pay to a hash, they hold an envelope,
they announce an envelope that is not there, or they are none of these.
-/

namespace Utxo.Script

variable {encoder : AddressEncoder} {b : Bytes} {hash : FixedBytes 20} {marker : Bytes}
  {rest : List Operation}

/-! ## Paying to a hash -/

/-- What can stand in front of twenty bytes that are pushed. -/
def hashPrefixes : List Bytes := [[0x14], [0x4c, 0x14], [0x4d, 0, 0x14], [0x4e, 0, 0, 0, 0x14]]

/-- The bytes pay to a hash, pushed in whatever form. -/
def PaysTo (b : Bytes) (hash : FixedBytes 20) : Prop :=
  ∃ front ∈ hashPrefixes, b = [0x76, 0xa9] ++ front ++ hash.val ++ [0x88, 0xac]

def payment (form : LengthForm) (hash : Bytes) (fits : form.Fits hash.length) : List Operation :=
  [.code Opcode.dup, .code Opcode.hash160, .push form hash fits, .code Opcode.equalVerify,
    .code Opcode.checkSig]

theorem front_mem (form : LengthForm) :
    form.opcode 20 :: form.lengthBytes 20 ∈ hashPrefixes := by
  cases form <;> decide

theorem exists_form : ∀ front ∈ hashPrefixes, ∃ form : LengthForm,
    form.Fits 20 ∧ front = form.opcode 20 :: form.lengthBytes 20 := by
  simp only [hashPrefixes, List.forall_mem_cons]
  exact ⟨⟨.direct, by decide⟩, ⟨.one, by decide⟩, ⟨.two, by decide⟩, ⟨.four, by decide⟩,
    by simp⟩

theorem encode_payment (form : LengthForm) (fits : form.Fits hash.val.length) :
    (payment form hash.val fits).flatMap Operation.encode =
      [0x76, 0xa9] ++ (form.opcode 20 :: form.lengthBytes 20) ++ hash.val ++ [0x88, 0xac] := by
  simp only [payment, List.flatMap_cons, List.flatMap_nil, Operation.encode, hash.property,
    List.cons_append, List.append_assoc]
  rfl

theorem decode_payment (form : LengthForm) (fits : form.Fits hash.val.length) :
    decode ((payment form hash.val fits).flatMap Operation.encode) =
      ⟨payment form hash.val fits, none⟩ := by
  apply decode_of_finds
  simp only [payment, List.forall_mem_cons]
  exact ⟨Operation.finds_code (by decide), Operation.finds_code (by decide),
    Operation.finds_push _ _ _, Operation.finds_code (by decide),
    Operation.finds_code (by decide), by simp⟩

theorem paidHash?_payment (form : LengthForm) (fits : form.Fits hash.val.length) :
    (ofOperations (payment form hash.val fits)).paidHash? = some hash := dif_pos hash.property

theorem paidHash?_eq_some {s : Script} (h : s.paidHash? = some hash) :
    ∃ form fits, s.operations = payment form hash.val fits := by
  unfold paidHash? at h
  split at h
  · rename_i form data fits hops
    split at h
    · cases h
      exact ⟨form, fits, hops⟩
    · cases h
  · cases h

theorem paysTo_iff :
    PaysTo b hash ↔ (decode b).fault? = none ∧ (decode b).paidHash? = some hash := by
  constructor
  · rintro ⟨front, hfront, rfl⟩
    obtain ⟨form, hfits, rfl⟩ := exists_form front hfront
    have fits : form.Fits hash.val.length := hash.property.symm ▸ hfits
    rw [← encode_payment form fits, decode_payment]
    exact ⟨rfl, paidHash?_payment form fits⟩
  · rintro ⟨hsound, hpaid⟩
    obtain ⟨form, fits, hops⟩ := paidHash?_eq_some hpaid
    refine ⟨_, front_mem form, ?_⟩
    rw [← encode_payment form fits, ← hops, flatMap_encode_of_sound hsound]

/-! ## Announcing an envelope -/

/-- Behind a push and a return stands a push of `marker`, with the operations `rest` behind it. -/
def Announces (s : Script) (marker : Bytes) (rest : List Operation) : Prop :=
  s.fault? = none ∧ ∃ first third : Push, third.operand = marker ∧
    s.operations = first.operation :: .code Opcode.opReturn :: third.operation :: rest

theorem Announces.returnedData? {s : Script} (h : s.Announces marker rest) :
    s.returnedData? = some (marker, rest) := by
  obtain ⟨-, first, third, rfl, hops⟩ := h
  rw [Script.returnedData?, hops]
  show (if first.operation.isPush then third.operation.operand?.map (·, rest) else none) = _
  rw [if_pos first.isPush, third.pushes, Option.map_some]

theorem announces_iff : (decode b).Announces marker rest ↔
    (decode b).fault? = none ∧ (decode b).returnedData? = some (marker, rest) := by
  constructor
  · intro h
    exact ⟨h.1, h.returnedData?⟩
  · rintro ⟨hsound, hdata⟩
    refine ⟨hsound, ?_⟩
    unfold returnedData? at hdata
    split at hdata
    · rename_i first third rest' hops
      split at hdata
      · rename_i hpush
        obtain ⟨operand, hthird, hpair⟩ := Option.map_eq_some_iff.mp hdata
        cases hpair
        have hfinds := finds_of_mem_decode first (hops ▸ List.mem_cons_self)
        obtain ⟨data, hfirst⟩ := (Operation.isPush_iff_of_finds hfinds).mp hpush
        exact ⟨⟨first, data, hfirst⟩, ⟨third, _, hthird⟩, rfl, hops⟩
      · cases hdata
    · cases hdata

theorem Announces.paidHash? {s : Script} (h : s.Announces marker rest) : s.paidHash? = none := by
  obtain ⟨-, first, third, -, hops⟩ := h
  by_contra hpaid
  obtain ⟨hash, hpaid⟩ := Option.ne_none_iff_exists'.mp hpaid
  obtain ⟨form, fits, hops'⟩ := paidHash?_eq_some hpaid
  rw [hops, payment] at hops'
  exact absurd (List.cons_eq_cons.mp (List.cons_eq_cons.mp hops').2).1 (by decide)

/-! ## The four outcomes -/

theorem lockingClass?_of_paidHash {s : Script} (hsound : s.fault? = none)
    (hpaid : s.paidHash? = some hash) :
    s.lockingClass? encoder = .ok (some (.party { address := encoder hash, hash })) := by
  rw [lockingClass?, hasFault, hsound, hpaid]
  rfl

theorem lockingClass?_of_paysTo (h : PaysTo b hash) :
    (decode b).lockingClass? encoder =
      .ok (some (.party { address := encoder hash, hash })) := by
  obtain ⟨hsound, hpaid⟩ := paysTo_iff.mp h
  exact lockingClass?_of_paidHash hsound hpaid

theorem Announces.lockingClass? {s : Script} (h : s.Announces marker rest) :
    s.lockingClass? encoder =
      Option.map ScriptClass.envelope <$> ((Envelope.read? marker).runFrom rest).1 := by
  rw [Script.lockingClass?, hasFault, h.1, h.paidHash?, h.returnedData?]
  rfl

theorem lockingClass?_of_neither (hpays : ∀ hash, ¬PaysTo b hash)
    (hannounces : ∀ marker rest, ¬(decode b).Announces marker rest) :
    (decode b).lockingClass? encoder = .ok none := by
  rw [lockingClass?]
  split
  · rfl
  rename_i hfault
  have hsound := hasFault_eq_false_iff.mp (Bool.not_eq_true _ ▸ hfault)
  split
  · rename_i hash hpaid
    exact absurd (paysTo_iff.mpr ⟨hsound, hpaid⟩) (hpays hash)
  · rename_i marker rest _ hdata
    exact absurd (announces_iff.mpr ⟨hsound, hdata⟩) (hannounces marker rest)
  · rfl

/-- The operations begin with a body that a marker asks for. -/
def BeginsWithBody (marker : Bytes) (rest : List Operation) : Prop :=
  ∃ (body : Envelope.Body) (tail : List Operation),
    body.marker = marker ∧ rest = body.operations ++ tail

theorem lockingClass?_of_body {s : Script} {body : Envelope.Body} {tail : List Operation}
    (h : s.Announces body.marker (body.operations ++ tail)) :
    s.lockingClass? encoder = .ok (some (.envelope body.envelope)) := by
  rw [h.lockingClass?, Envelope.read?_some_iff.mpr ⟨body, rfl, rfl, rfl⟩]
  rfl

theorem Announces.exists_error {s : Script} (h : s.Announces marker rest)
    (hmarker : Envelope.IsMarker marker) (hbody : ¬BeginsWithBody marker rest) :
    ∃ error, s.lockingClass? encoder = .error error := by
  rw [h.lockingClass?]
  rcases hrun : (Envelope.read? marker).runFrom rest with ⟨error | _ | e, tail⟩
  · exact ⟨error, rfl⟩
  · exact absurd hrun (Envelope.read?_ne_none hmarker)
  · obtain ⟨body, hmarker, -, hrest⟩ := Envelope.read?_some_iff.mp hrun
    exact absurd ⟨body, tail, hmarker, hrest⟩ hbody

theorem Announces.lockingClass?_of_not_isMarker {s : Script} (h : s.Announces marker rest)
    (hmarker : ¬Envelope.IsMarker marker) : s.lockingClass? encoder = .ok none := by
  rw [h.lockingClass?, Envelope.read?_of_not_isMarker hmarker]
  rfl

/-- What the bytes of a script are classified as, and on which condition. -/
inductive Classified (encoder : AddressEncoder) (b : Bytes) :
    Except EnvelopeError (Option ScriptClass) → Prop where
  | paysTo {hash : FixedBytes 20} : PaysTo b hash →
      Classified encoder b (.ok (some (.party { address := encoder hash, hash })))
  | envelope {body : Envelope.Body} {tail : List Operation} :
      (decode b).Announces body.marker (body.operations ++ tail) →
      Classified encoder b (.ok (some (.envelope body.envelope)))
  | malformed {marker : Bytes} {rest : List Operation} {error : EnvelopeError} :
      Envelope.IsMarker marker → (decode b).Announces marker rest →
      ¬BeginsWithBody marker rest → Classified encoder b (.error error)
  | other : (∀ hash, ¬PaysTo b hash) →
      (∀ marker rest, (decode b).Announces marker rest → ¬Envelope.IsMarker marker) →
      Classified encoder b (.ok none)

theorem classified (encoder : AddressEncoder) (b : Bytes) :
    Classified encoder b ((decode b).lockingClass? encoder) := by
  by_cases hpays : ∃ hash, PaysTo b hash
  · obtain ⟨hash, hpays⟩ := hpays
    rw [lockingClass?_of_paysTo hpays]
    exact .paysTo hpays
  rw [not_exists] at hpays
  by_cases hannounces : ∃ marker rest, (decode b).Announces marker rest
  · obtain ⟨marker, rest, h⟩ := hannounces
    by_cases hmarker : Envelope.IsMarker marker
    · by_cases hbody : BeginsWithBody marker rest
      · obtain ⟨body, tail, rfl, rfl⟩ := hbody
        rw [lockingClass?_of_body h]
        exact .envelope h
      · obtain ⟨error, herror⟩ := h.exists_error hmarker hbody
        rw [herror]
        exact .malformed hmarker h hbody
    · rw [h.lockingClass?_of_not_isMarker hmarker]
      refine .other hpays ?_
      intro marker' rest' h'
      -- A script announces at most one thing.
      obtain ⟨rfl, -⟩ : marker' = marker ∧ rest' = rest := by
        simpa [h.returnedData?] using h'.returnedData?.symm
      exact hmarker
  · simp only [not_exists] at hannounces
    rw [lockingClass?_of_neither hpays hannounces]
    exact .other hpays fun marker rest h => absurd h (hannounces marker rest)

theorem exists_body {e : Envelope}
    (h : (decode b).lockingClass? encoder = .ok (some (.envelope e))) :
    ∃ (body : Envelope.Body) (tail : List Operation), body.envelope = e ∧
      (decode b).Announces body.marker (body.operations ++ tail) := by
  have hclass := classified encoder b
  rw [h] at hclass
  cases hclass with
  | envelope hannounces => exact ⟨_, _, rfl, hannounces⟩

/-- A locking script is classified by its bytes alone. It names a party if it pays to a hash, and
holds an envelope if one is announced and there; an envelope that is announced and not there is the
only error. -/
theorem lockingClass?_decode (encoder : AddressEncoder) (b : Bytes) :
    (∀ party, (decode b).lockingClass? encoder = .ok (some (.party party)) ↔
      PaysTo b party.hash ∧ party = { address := encoder party.hash, hash := party.hash }) ∧
    (∀ e, (decode b).lockingClass? encoder = .ok (some (.envelope e)) ↔
      ∃ (body : Envelope.Body) (tail : List Operation), body.envelope = e ∧
        (decode b).Announces body.marker (body.operations ++ tail)) ∧
    ((∃ error, (decode b).lockingClass? encoder = .error error) ↔
      ∃ marker rest, Envelope.IsMarker marker ∧ (decode b).Announces marker rest ∧
        ¬BeginsWithBody marker rest) ∧
    ((decode b).lockingClass? encoder = .ok none ↔
      (∀ hash, ¬PaysTo b hash) ∧
        ∀ marker rest, (decode b).Announces marker rest → ¬Envelope.IsMarker marker) := by
  have hclass := classified encoder b
  refine ⟨?_, ?_, ?_, ?_⟩
  · intro party
    constructor
    · intro h
      rw [h] at hclass
      cases hclass with
      | paysTo hpays => exact ⟨hpays, rfl⟩
    · rintro ⟨hpays, hparty⟩
      rw [lockingClass?_of_paysTo hpays, ← hparty]
  · intro e
    constructor
    · exact exists_body
    · rintro ⟨body, tail, rfl, hannounces⟩
      exact lockingClass?_of_body hannounces
  · constructor
    · rintro ⟨error, h⟩
      rw [h] at hclass
      cases hclass with
      | malformed hmarker hannounces hbody => exact ⟨_, _, hmarker, hannounces, hbody⟩
    · rintro ⟨marker, rest, hmarker, hannounces, hbody⟩
      exact hannounces.exists_error hmarker hbody
  · constructor
    · intro h
      rw [h] at hclass
      cases hclass with
      | other hpays hannounces => exact ⟨hpays, hannounces⟩
    · rintro ⟨hpays, hannounces⟩
      generalize (decode b).lockingClass? encoder = outcome at hclass ⊢
      cases hclass with
      | paysTo h => exact absurd h (hpays _)
      | @envelope body _ h => exact absurd body.isMarker (hannounces _ _ h)
      | malformed hmarker h _ => exact absurd hmarker (hannounces _ _ h)
      | other _ _ => rfl

/-- A hash is paid to behind a longer prefix than it needs, and an envelope is announced whose first
count is too large for what comes. -/
theorem lockingClass?_decode_broken :
    let hash : FixedBytes 20 := ⟨List.replicate 20 7, rfl⟩
    let paying : Bytes := [0x76, 0xa9, 0x4d, 0, 0x14] ++ hash.val ++ [0x88, 0xac]
    let broken : Bytes := [0x00, 0x6a, 0x02, 0xbd, 0x01, 0x52, 0x51]
    (decode paying).lockingClass? (Address.encode .mainnet) =
        .ok (some (.party { address := Address.encode .mainnet hash, hash })) ∧
      ∃ marker rest, Envelope.IsMarker marker ∧ (decode broken).Announces marker rest ∧
        ¬BeginsWithBody marker rest := by
  intro hash paying broken
  obtain ⟨hparty, -, -, -⟩ := lockingClass?_decode (Address.encode .mainnet) paying
  obtain ⟨-, -, herror, -⟩ := lockingClass?_decode (Address.encode .mainnet) broken
  refine ⟨(hparty _).mpr ⟨⟨[0x4d, 0, 0x14], by decide, rfl⟩, rfl⟩, herror.mp ?_⟩
  have hdecode : decode broken = ofOperations [.code 0x00, .code 0x6a,
      .push .direct [0xbd, 0x01] (by decide), .code 0x52, .code 0x51] := by decide +kernel
  exact ⟨.badCount "protocol count" [0x02], hdecode ▸ rfl⟩

/-! ## Through the bytes and back -/

/-- An envelope survives the way through the bytes of a script, whatever pushes stand for its
counts, its texts and its data, and nothing else is an envelope. -/
theorem lockingClass?_envelope (encoder : AddressEncoder) :
    (∀ (first marker : Push) (body : EnvelopeV1.Body) (protocols : List String)
        (data : List Bytes) (trailing : Bytes),
      marker.operand = Envelope.markerV1 →
      body.protocols.map Push.operand = protocols.map Utf8.encode →
      body.data.map Push.operand = data → (decode trailing).fault? = none →
      (decode ((first.operation :: .code Opcode.opReturn :: marker.operation ::
          body.operations).flatMap Operation.encode ++ trailing)).lockingClass? encoder =
        .ok (some (.envelope (.v1 { protocols, data })))) ∧
    ∀ b e, (decode b).lockingClass? encoder = .ok (some (.envelope (.v1 e))) →
      ∃ (first marker : Push) (body : EnvelopeV1.Body) (tail : List Operation),
        (decode b).fault? = none ∧ marker.operand = Envelope.markerV1 ∧
        (decode b).operations = first.operation :: .code Opcode.opReturn :: marker.operation ::
          (body.operations ++ tail) ∧
        e.protocols = (body.protocols.map Push.operand).map Utf8.decode ∧
        e.data = body.data.map Push.operand ∧
        body.operations.length = 2 + e.protocols.length + e.data.length ∧
        EnvelopeV1.read.runFrom (body.operations ++ tail) = (.ok e, tail) := by
  refine ⟨?_, ?_⟩
  · intro first marker body protocols data trailing hmarker hprotocols hdata htrailing
    have hfinds : ∀ op ∈ first.operation :: .code Opcode.opReturn :: marker.operation ::
        body.operations, Operation.read.Finds op.encode op := by
      simp only [List.forall_mem_cons]
      exact ⟨first.finds, Operation.finds_code (by decide), marker.finds, body.finds⟩
    have hannounces : (decode ((first.operation :: .code Opcode.opReturn :: marker.operation ::
        body.operations).flatMap Operation.encode ++ trailing)).Announces
        (Envelope.Body.v1 body).marker (body.operations ++ (decode trailing).operations) := by
      rw [decode_append hfinds htrailing]
      exact ⟨rfl, first, marker, hmarker, rfl⟩
    have hbody : body.envelope = { protocols, data } := by
      have htexts : (protocols.map Utf8.encode).map Utf8.decode = protocols := by
        rw [List.map_map, show Utf8.decode ∘ Utf8.encode = id from funext Utf8.decode_encode,
          List.map_id]
      rw [EnvelopeV1.Body.envelope, hprotocols, htexts, hdata]
    rw [lockingClass?_of_body hannounces, ← hbody]
    rfl
  · intro b e h
    obtain ⟨body, tail, he, hsound, first, marker, hmarker, hops⟩ := exists_body h
    cases body with
    | v0 body => cases he
    | v1 body =>
      obtain rfl : body.envelope = e := Envelope.v1.inj he
      exact ⟨first, marker, body, tail, hsound, hmarker, hops, rfl, rfl, body.length_operations,
        EnvelopeV1.read_ok.mpr ⟨body, rfl, rfl⟩⟩

/-- The marker takes a longer form than it needs, and the counts take eight bytes for a one and
three for a two. The first item of data has no bytes, and the second one is a small number. -/
theorem lockingClass?_envelope_wide :
    let b : Bytes := [0x60, 0x6a, 0x4e, 0, 0, 0, 2, 0xbd, 0x01, 0x08, 1, 0, 0, 0, 0, 0, 0, 0,
      0x02, 0xc3, 0xa9, 0x4c, 0x03, 2, 0, 0, 0x4d, 0, 0, 0x4f, 0x6a]
    let e : EnvelopeV1 := { protocols := ["é"], data := [[], [0x81]] }
    (decode b).lockingClass? (Address.encode .mainnet) = .ok (some (.envelope (.v1 e))) ∧
      ∃ (body : EnvelopeV1.Body) (tail : List Operation), body.operations.length = 5 ∧
        EnvelopeV1.read.runFrom (body.operations ++ tail) = (.ok e, tail) := by
  intro b e
  let body : EnvelopeV1.Body :=
    { protocolCount := ⟨.push .direct [1, 0, 0, 0, 0, 0, 0, 0] (by decide), _, rfl⟩
      protocols := [⟨.push .direct [0xc3, 0xa9] (by decide), _, rfl⟩]
      dataCount := ⟨.push .one [2, 0, 0] (by decide), _, rfl⟩
      data := [⟨.push .two [] (by decide), _, rfl⟩, ⟨.code 0x4f, [0x81], rfl⟩]
      countsProtocols := by decide
      countsData := by decide }
  obtain ⟨hforward, hback⟩ := lockingClass?_envelope (Address.encode .mainnet)
  have hclass : (decode b).lockingClass? (Address.encode .mainnet) =
      .ok (some (.envelope (.v1 e))) :=
    hforward ⟨.code 0x60, [0x10], rfl⟩ ⟨.push .four [0xbd, 0x01] (by decide), _, rfl⟩ body
      ["é"] [[], [0x81]] [0x6a] rfl rfl rfl (by decide +kernel)
  obtain ⟨-, -, body', tail, -, -, -, -, -, hlength, hread⟩ := hback b e hclass
  exact ⟨hclass, body', tail, hlength, hread⟩

end Utxo.Script
