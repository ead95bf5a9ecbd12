import Utxo.Proofs.Wire.Local

/-!
# Fields, whatever is in them

What a field looks like, without a word on how it is read. A reader that does not know its number
passes over all of it and nothing else, unless more groups are open than a reader follows; and then
it fails before it has seen what comes behind the field.
-/

namespace Utxo

open WireReader

namespace Wire

/-- A value that is written in a way other than as a group. -/
inductive IsValue : WireType → Bytes → Prop
  | varint {b : Bytes} {n : Nat} : Varint.Spells b n → IsValue .varint b
  | fixed64 {b : Bytes} : b.length = 8 → IsValue .fixed64 b
  | fixed32 {b : Bytes} : b.length = 4 → IsValue .fixed32 b
  | delimited {length b : Bytes} : Varint.Spells length b.length → IsValue .delimited (length ++ b)

/-- A field with a number, where groups stand in each other less than `levels` deep. The parts of a
group are fields with any numbers. -/
inductive IsField : (levels number : Nat) → Bytes → Prop
  | value {levels number : Nat} {t : WireType} {key value : Bytes} :
      WireKey.Spells key ⟨number, t⟩ → IsValue t value → IsField (levels + 1) number (key ++ value)
  | group {levels number : Nat} {first last : Bytes} {parts : List (Nat × Bytes)} :
      WireKey.Spells first ⟨number, .groupStart⟩ →
      (∀ part ∈ parts, IsField levels part.1 part.2) →
      WireKey.Spells last ⟨number, .groupEnd⟩ →
      IsField (levels + 1) number (first ++ (parts.flatMap Prod.snd ++ last))

/-- Any number of fields, one behind the other. -/
def AreFields (b : Bytes) : Prop :=
  ∃ levels, ∃ parts : List (Nat × Bytes),
    (∀ part ∈ parts, IsField levels part.1 part.2) ∧ b = parts.flatMap Prod.snd

variable {levels number n : Nat} {t : WireType} {b : Bytes} {opened : List Nat}

theorem IsField.ne_nil (h : IsField levels number b) : b ≠ [] := by
  cases h with
  | value hkey _ => exact List.append_ne_nil_of_left_ne_nil hkey.number.digits.ne_nil _
  | group hfirst _ _ => exact List.append_ne_nil_of_left_ne_nil hfirst.number.digits.ne_nil _

theorem isField_encodeVarint (hpos : 0 < number) (hnumber : number < WireKey.numberBound)
    (hn : n < UInt64.size) : IsField (levels + 1) number (encodeVarint number n) :=
  .value (WireKey.spells_encode hpos hnumber) (.varint (Varint.spells_encode hn))

theorem isField_encodeDelimited (hpos : 0 < number) (hnumber : number < WireKey.numberBound)
    (hlength : b.length < UInt64.size) :
    IsField (levels + 1) number (encodeDelimited number b) := by
  unfold encodeDelimited
  rw [List.append_assoc]
  exact .value (WireKey.spells_encode hpos hnumber) (.delimited (Varint.spells_encode hlength))

/-! ## Passing over fields -/

theorem reads_skipBytes {n : Nat} (h : b.length = n) : Reads (skipBytes n) b () :=
  ((reads_take h).blame _).then (reads_pure _)

theorem IsValue.reads_skipValue (h : IsValue t b) : Reads (skipValue t) b () := by
  cases h with
  | varint hnumber => exact hnumber.reads.then (reads_pure _)
  | fixed64 hlength => exact reads_skipBytes hlength
  | fixed32 hlength => exact reads_skipBytes hlength
  | delimited hnumber =>
    refine hnumber.reads.bind (reads_skipBytes ?_)
    rw [UInt64.toNat_ofNat_of_lt' hnumber.lt]

theorem IsValue.reads_skipAmong (h : IsValue t b) (hroom : opened.length < maxOpenGroups) :
    Reads (skipAmong opened ⟨number, t⟩) b opened := by
  have hskip := h.reads_skipValue
  have hnotEnd : t ≠ .groupEnd := by rintro rfl; cases h
  have hnotStart : t ≠ .groupStart := by rintro rfl; cases h
  unfold skipAmong
  rw [if_neg hnotEnd, if_neg (Nat.not_le_of_lt hroom)]
  refine hskip.then ?_
  rw [if_neg hnotStart]
  exact reads_pure _

theorem reads_openGroup (hroom : opened.length < maxOpenGroups) :
    Reads (skipAmong opened ⟨number, .groupStart⟩) [] (number :: opened) := by
  unfold skipAmong
  rw [if_neg nofun, if_neg (Nat.not_le_of_lt hroom)]
  exact (reads_pure ()).then (reads_pure _)

theorem reads_closeGroup :
    Reads (skipAmong (number :: opened) ⟨number, .groupEnd⟩) [] opened := by
  have hskip : skipAmong (number :: opened) ⟨number, .groupEnd⟩ = pure opened := by
    unfold skipAmong
    simp only [if_true]
  rw [hskip]
  exact reads_pure _

theorem fails_skipAmong (ht : t ≠ .groupEnd) (hfull : maxOpenGroups ≤ opened.length) :
    Fails (skipAmong opened ⟨number, t⟩) [] .tooDeep := by
  unfold skipAmong
  rw [if_neg ht, if_pos hfull]
  exact fails_throw _

/-- Groups that stand around it may keep a reader from passing over the fields in `b`, but nothing
else does. -/
def PassedOver (levels : Nat) (b : Bytes) : Prop :=
  ∀ opened ≠ [], (∀ rest, closeGroups opened (b ++ rest) = closeGroups opened rest) ∨
    maxOpenGroups < levels + opened.length ∧
      ∀ rest, closeGroups opened (b ++ rest) = .error .tooDeep

theorem closeGroups_of_fails {e : WireFault} (hopened : opened ≠ [])
    (h : Fails (skipNext opened) b e) (rest : Bytes) :
    closeGroups opened (b ++ rest) = .error e := by
  obtain ⟨rest', hread⟩ := h rest
  rw [closeGroups_of_ne_nil hopened, hread]

theorem passedOver_parts {parts : List (Nat × Bytes)}
    (h : ∀ part ∈ parts, PassedOver levels part.2) :
    PassedOver levels (parts.flatMap Prod.snd) := by
  intro opened hopened
  induction parts with
  | nil => exact .inl fun _ => rfl
  | cons part parts ih =>
    obtain ⟨hpart, hparts⟩ := List.forall_mem_cons.mp h
    rw [List.flatMap_cons]
    simp only [List.append_assoc]
    rcases hpart opened hopened with hpass | ⟨hdeep, hfail⟩
    · rcases ih hparts with hrest | ⟨hdeep, hfail⟩
      · exact .inl fun rest => by rw [hpass, hrest]
      · exact .inr ⟨hdeep, fun rest => by rw [hpass, hfail]⟩
    · exact .inr ⟨hdeep, fun rest => hfail _⟩

/-- A group that was opened is passed over up to the key that closes it. -/
theorem closeGroups_group {parts : List (Nat × Bytes)} {last : Bytes}
    (hparts : PassedOver levels (parts.flatMap Prod.snd))
    (hlast : WireKey.Spells last ⟨number, .groupEnd⟩) (opened : List Nat) :
    (∀ rest, closeGroups (number :: opened) (parts.flatMap Prod.snd ++ last ++ rest) =
        closeGroups opened rest) ∨
      maxOpenGroups < levels + 1 + opened.length ∧
        ∀ rest, closeGroups (number :: opened) (parts.flatMap Prod.snd ++ last ++ rest) =
          .error .tooDeep := by
  have hclose : Reads (skipNext (number :: opened)) last opened :=
    hlast.reads.then reads_closeGroup
  simp only [List.append_assoc]
  have hopened := List.cons_ne_nil number opened
  rcases hparts _ hopened with hpass | ⟨hdeep, hfail⟩
  · exact .inl fun rest => by rw [hpass, closeGroups_append hopened hclose]
  · rw [List.length_cons] at hdeep
    exact .inr ⟨by omega, fun rest => hfail _⟩

theorem IsField.passedOver (h : IsField levels number b) : PassedOver levels b := by
  induction h with
  | @value levels number t key value hkey hvalue =>
    intro opened hopened
    rcases Nat.lt_or_ge opened.length maxOpenGroups with hroom | hfull
    · have hnext : Reads (skipNext opened) (key ++ value) opened :=
        hkey.reads.bind (hvalue.reads_skipAmong hroom)
      exact .inl (closeGroups_append hopened hnext)
    · have hnotEnd : t ≠ .groupEnd := by rintro rfl; cases hvalue
      have hnext : Fails (skipNext opened) (key ++ value) .tooDeep :=
        hkey.reads.fails ((fails_skipAmong hnotEnd hfull).append value)
      exact .inr ⟨by omega, closeGroups_of_fails hopened hnext⟩
  | @group levels number first last parts hfirst _ hlast ih =>
    intro opened hopened
    rcases Nat.lt_or_ge opened.length maxOpenGroups with hroom | hfull
    · have hnext : Reads (skipNext opened) first (number :: opened) :=
        hfirst.reads.then (reads_openGroup hroom)
      simp only [List.append_assoc first, closeGroups_append hopened hnext]
      exact closeGroups_group (passedOver_parts ih) hlast opened
    · have hnext : Fails (skipNext opened) (first ++ (parts.flatMap Prod.snd ++ last)) .tooDeep :=
        hfirst.reads.fails ((fails_skipAmong (by decide) hfull).append _)
      exact .inr ⟨by omega, closeGroups_of_fails hopened hnext⟩

/-- What stands behind the key of a field is passed over, if groups are not too deep in it. -/
theorem IsField.exists_key (h : IsField levels number b) :
    ∃ t key value, b = key ++ value ∧ WireKey.Spells key ⟨number, t⟩ ∧
      (t = .groupStart ∨ IsValue t value) ∧
      (Reads (skip ⟨number, t⟩) value () ∨
        maxOpenGroups < levels ∧ Fails (skip ⟨number, t⟩) value .tooDeep) := by
  cases h with
  | @value _ _ t key value hkey hvalue =>
    refine ⟨t, key, value, rfl, hkey, .inr hvalue, .inl ?_⟩
    rw [← List.append_nil value]
    exact reads_skip (hvalue.reads_skipAmong (by decide)) closeGroups_nil
  | @group _ _ first last parts hfirst hparts hlast =>
    refine ⟨.groupStart, first, _, rfl, hfirst, .inl rfl, ?_⟩
    have hopen : Reads (skipAmong [] ⟨number, .groupStart⟩) [] [number] :=
      reads_openGroup (by decide)
    have hpassed := passedOver_parts fun part hpart => (hparts part hpart).passedOver
    have hgroup := closeGroups_group hpassed hlast []
    rw [← List.nil_append (_ ++ last)]
    rcases hgroup with hpass | ⟨hdeep, hfail⟩
    · refine .inl (reads_skip hopen fun more => ?_)
      rw [hpass, closeGroups_nil]
    · refine .inr ⟨hdeep, hopen.fails fun rest => ⟨parts.flatMap Prod.snd ++ last ++ rest, ?_⟩⟩
      simp only [Stateful.runFrom_bind, Stateful.runFrom_get, Stateful.runFrom_done, hfail]

end Wire

end Utxo
