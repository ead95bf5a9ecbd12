import Utxo.Proofs.Transaction.Layout

/-!
# Cut encodings

Every byte string is an encoding of a transaction that is cut off, whole, or followed by more. The
main statement says that these are the three ways in which decoding can end, and that only the
outline of the bytes decides between them.
-/

namespace Utxo

/-! ## What a reader would take -/

namespace Reader

variable {α β : Type} {reader : Reader MissingPart α}

/-- From every cursor on there are bytes that the reader would take. What is left there starts with
them, or it is cut off from them. -/
def Walks (reader : Reader MissingPart α) : Prop :=
  ∀ c : Cursor, ∃ layout b a, reader.Follows layout c.position b a ∧
    (b <+: c.rest ∨ c.rest <+: b)

theorem walks_pure (a : α) : Walks (pure a) :=
  fun c => ⟨[], [], a, follows_pure c.position a, .inl List.nil_prefix⟩

theorem walks_position : Walks Reader.position :=
  fun c => ⟨[], [], c.position, follows_position c.position, .inl List.nil_prefix⟩

theorem Walks.bind {f : α → Reader MissingPart β} (hx : reader.Walks) (hf : ∀ a, (f a).Walks) :
    Walks (reader >>= f) := by
  intro c
  obtain ⟨layout, b, a, hfirst, hb | hb⟩ := hx c
  · obtain ⟨rest, hrest⟩ := hb
    obtain ⟨more, b', r, hmore, hb'⟩ := hf a ⟨c.position + b.length, rest⟩
    refine ⟨layout ++ more, b ++ b', r, hfirst.bind hmore, ?_⟩
    rw [← hrest, List.prefix_append_right_inj, List.prefix_append_right_inj]
    exact hb'
  · -- Where no byte is left, any bytes of the second reader do.
    obtain ⟨more, b', r, hmore, -⟩ := hf a ⟨c.position + b.length, []⟩
    exact ⟨layout ++ more, b ++ b', r, hfirst.bind hmore, .inr (hb.trans (List.prefix_append b b'))⟩

theorem Walks.times (h : reader.Walks) (n : Nat) : Walks (times reader n) := by
  induction n with
  | zero => exact walks_pure []
  | succ n ih => exact h.bind fun _ => ih.bind fun _ => walks_pure _

theorem Single.walks {reader : Reader Truncated α} {n : Nat} (h : Single reader n)
    (part : TransactionPart) : (part.reading reader).Walks := by
  intro c
  by_cases hlength : n ≤ c.rest.length
  · have htake := List.length_take_of_le hlength
    obtain ⟨a, ha⟩ := h.finds _ htake
    exact ⟨_, _, a, h.follows part htake ha c.position, .inl (List.take_prefix n c.rest)⟩
  · have hfill : (c.rest ++ List.replicate (n - c.rest.length) 0).length = n := by
      simp
      omega
    obtain ⟨a, ha⟩ := h.finds _ hfill
    exact ⟨_, _, a, h.follows part hfill ha c.position, .inr (List.prefix_append _ _)⟩

end Reader

open Reader CompactSize

theorem CompactSize.walks_read (part : TransactionPart) :
    (part.reading CompactSize.read).Walks := by
  unfold CompactSize.read
  rw [TransactionPart.reading_bind]
  refine (single_byte.walks part).bind fun first => ?_
  split
  · exact single_u64LE.walks part
  split
  · rw [TransactionPart.reading_bind]
    exact (single_u32LE.walks part).bind fun _ => walks_pure _
  split
  · rw [TransactionPart.reading_bind]
    exact (single_u16LE.walks part).bind fun _ => walks_pure _
  · exact walks_pure _

theorem Script.walks_read (part : TransactionPart) : (part.reading Script.read).Walks := by
  rw [Script.read, readFrame, TransactionPart.reading_bind, TransactionPart.reading_bind]
  exact ((CompactSize.walks_read part).bind fun n => (single_bytes n.toNat).walks part).bind
    fun _ => walks_pure _

theorem TransactionInput.walks_read : TransactionInput.read.Walks :=
  walks_position.bind fun _ => ((single_fixed 32).walks _).bind fun _ =>
    (single_u32LE.walks _).bind fun _ => (Script.walks_read _).bind fun _ =>
    (single_u32LE.walks _).bind fun _ => walks_position.bind fun _ => walks_pure _

theorem TransactionOutput.walks_read : TransactionOutput.read.Walks :=
  walks_position.bind fun _ => (single_u64LE.walks _).bind fun _ =>
    (Script.walks_read _).bind fun _ => walks_position.bind fun _ => walks_pure _

namespace Transaction

theorem walks_read : Transaction.read.Walks :=
  walks_position.bind fun _ => (single_u32LE.walks _).bind fun _ =>
    (CompactSize.walks_read _).bind fun n =>
    (TransactionInput.walks_read.times n.toNat).bind fun _ =>
    (CompactSize.walks_read _).bind fun m =>
    (TransactionOutput.walks_read.times m.toNat).bind fun _ =>
    (single_u32LE.walks _).bind fun _ => walks_position.bind fun _ => walks_pure _

/-! ## How decoding ends -/

variable {tx : Transaction} {layout : Layout} {forms : Forms} {b b' : Bytes}

theorem decode_of_follows (h : read.Follows layout 0 b tx) : decode b = .ok tx := by
  have hrun := h.whole []
  rw [List.append_nil] at hrun
  rw [decode, Cursor.start, hrun]
  rfl

theorem decode_append_of_follows (h : read.Follows layout 0 b tx) {t : Bytes} (ht : t ≠ []) :
    decode (b ++ t) = .error (.trailing t.length) := by
  have hend : (⟨0 + b.length, t⟩ : Cursor).atEnd = false := by simpa [Cursor.atEnd] using ht
  rw [decode, Cursor.start, h.whole t]
  simp only [hend]
  rfl

theorem decode_take_of_follows (h : read.Follows layout 0 b tx) {n : Nat} (hn : n < b.length) :
    ∃ e, layout.missing? n = some e ∧ decode (b.take n) = .error (.missing e) := by
  obtain ⟨e, c, he, hrun⟩ := h.cut n hn
  refine ⟨e, he, ?_⟩
  rw [decode, Cursor.start, hrun]

/-- There is always a transaction that the bytes start with or that they are the start of. -/
theorem exists_encodeIn (b : Bytes) : ∃ (forms : Forms) (tx : Transaction), forms.All Form.Fits tx ∧
    ((∃ n, n < (tx.encodeIn forms).length ∧ b = (tx.encodeIn forms).take n) ∨
      ∃ t, b = tx.encodeIn forms ++ t) := by
  obtain ⟨layout, whole, tx, hfollows, hb⟩ := walks_read (.start b)
  obtain ⟨forms, hfits, rfl⟩ := spelled_of_decode (decode_of_follows hfollows)
  refine ⟨forms, tx, hfits, ?_⟩
  have hmore : tx.encodeIn forms <+: b → ∃ t, b = tx.encodeIn forms ++ t :=
    fun ⟨t, ht⟩ => ⟨t, ht.symm⟩
  rcases hb with hb | hb
  · exact .inr (hmore hb)
  · rcases Nat.lt_or_ge b.length (tx.encodeIn forms).length with hlt | hge
    · exact .inl ⟨b.length, hlt, List.prefix_iff_eq_take.mp hb⟩
    · exact .inr (hmore (hb.eq_of_length_le hge ▸ List.prefix_rfl))

/-- In both byte strings the counts stand in the same forms and the scripts have the same lengths;
both break off at the same place, or go on equally far behind the end. What the scripts hold may
differ, as may all that is no count. -/
def SameOutline (b b' : Bytes) : Prop :=
  ∃ (forms : Forms) (tx tx' : Transaction), forms.All Form.Fits tx ∧
    tx'.unlockingLengths = tx.unlockingLengths ∧ tx'.lockingLengths = tx.lockingLengths ∧
    ((∃ n, b = (tx.encodeIn forms).take n ∧ b' = (tx'.encodeIn forms).take n) ∨
      ∃ t t', t'.length = t.length ∧ b = tx.encodeIn forms ++ t ∧ b' = tx'.encodeIn forms ++ t')

theorem SameOutline.refl (b : Bytes) : SameOutline b b := by
  obtain ⟨forms, tx, hfits, ⟨n, -, hn⟩ | ⟨t, ht⟩⟩ := exists_encodeIn b
  · exact ⟨forms, tx, tx, hfits, rfl, rfl, .inl ⟨n, hn, hn⟩⟩
  · exact ⟨forms, tx, tx, hfits, rfl, rfl, .inr ⟨t, t, rfl, ht, ht⟩⟩

theorem fits_of_lengths {tx' : Transaction} (h : forms.All Form.Fits tx)
    (hunlocking : tx'.unlockingLengths = tx.unlockingLengths)
    (hlocking : tx'.lockingLengths = tx.lockingLengths) : forms.All Form.Fits tx' := by
  have hinputs : tx'.inputs.length = tx.inputs.length := by
    simpa [unlockingLengths] using congrArg List.length hunlocking
  have houtputs : tx'.outputs.length = tx.outputs.length := by
    simpa [lockingLengths] using congrArg List.length hlocking
  exact ⟨hinputs ▸ h.inputCount, hunlocking ▸ h.unlocking, houtputs ▸ h.outputCount,
    hlocking ▸ h.locking⟩

/-- Byte strings of one outline are accepted both, or refused both with the same error. -/
theorem SameOutline.decode (h : SameOutline b b') :
    (fun _ => ()) <$> decode b = (fun _ => ()) <$> decode b' := by
  obtain ⟨forms, tx, tx', hfits, hunlocking, hlocking, hbytes⟩ := h
  obtain ⟨back, hback⟩ := follows_read hfits 0
  obtain ⟨back', hback'⟩ := follows_read (fits_of_lengths hfits hunlocking hlocking) 0
  have hlayout : tx'.layout forms = tx.layout forms := by
    simp only [layout, hunlocking, hlocking]
  rw [hlayout] at hback'
  have hlength : (tx'.encodeIn forms).length = (tx.encodeIn forms).length :=
    hback'.width.symm.trans hback.width
  rcases hbytes with ⟨n, rfl, rfl⟩ | ⟨t, t', ht, rfl, rfl⟩
  · rcases Nat.lt_or_ge n (tx.encodeIn forms).length with hlt | hge
    · obtain ⟨e, he, hcut⟩ := decode_take_of_follows hback hlt
      obtain ⟨e', he', hcut'⟩ := decode_take_of_follows hback' (hlength ▸ hlt)
      rw [he, Option.some.injEq] at he'
      rw [hcut, hcut', he']
    · rw [List.take_of_length_le hge, List.take_of_length_le (by omega),
        decode_of_follows hback, decode_of_follows hback']
      rfl
  · by_cases hend : t = []
    · have hend' : t' = [] := List.eq_nil_of_length_eq_zero (by rw [ht, hend, List.length_nil])
      rw [hend, hend', List.append_nil, List.append_nil, decode_of_follows hback,
        decode_of_follows hback']
      rfl
    · have hend' : t' ≠ [] := fun h' =>
        hend (List.eq_nil_of_length_eq_zero (by rw [← ht, h', List.length_nil]))
      rw [decode_append_of_follows hback hend, decode_append_of_follows hback' hend', ht]

/-- No accepted encoding starts another one: cut off, it lacks bytes, and followed by more, it has
too many. Every other byte string is refused for one of these two reasons. Which of the three it is
does not depend on what scripts hold, nor on any value but the counts. -/
theorem decode_prefix_free :
    (∀ raw tx, decode raw = .ok tx →
      (∀ front, front <+: raw → front ≠ raw → ∃ part cause,
        decode front = .error (.missing ⟨part, cause⟩) ∧ cause.remaining < cause.needed) ∧
      ∀ t, t ≠ [] → decode (raw ++ t) = .error (.trailing t.length)) ∧
    (∀ raw, (∃ tx, decode raw = .ok tx) ∨
      (∃ part cause, decode raw = .error (.missing ⟨part, cause⟩) ∧
        cause.remaining < cause.needed) ∨
      ∃ count, 0 < count ∧ decode raw = .error (.trailing count)) ∧
    (∀ raw, SameOutline raw raw) ∧
    ∀ raw raw', SameOutline raw raw' →
      (fun _ => ()) <$> decode raw = (fun _ => ()) <$> decode raw' := by
  refine ⟨?_, ?_, SameOutline.refl, fun _ _ => SameOutline.decode⟩
  · intro raw tx h
    obtain ⟨forms, hfits, rfl⟩ := spelled_of_decode h
    obtain ⟨back, hback⟩ := follows_read hfits 0
    refine ⟨?_, fun t ht => decode_append_of_follows hback ht⟩
    intro front hfront hne
    have hlt : front.length < (tx.encodeIn forms).length := by
      rcases Nat.lt_or_ge front.length (tx.encodeIn forms).length with hlt | hge
      · exact hlt
      · exact absurd (hfront.eq_of_length_le hge) hne
    obtain ⟨⟨part, cause⟩, he, hcut⟩ := decode_take_of_follows hback hlt
    rw [← List.prefix_iff_eq_take.mp hfront] at hcut
    exact ⟨part, cause, hcut, Layout.remaining_lt_needed he⟩
  · intro raw
    obtain ⟨forms, tx, hfits, ⟨n, hn, rfl⟩ | ⟨t, rfl⟩⟩ := exists_encodeIn raw
    · obtain ⟨back, hback⟩ := follows_read hfits 0
      obtain ⟨⟨part, cause⟩, he, hcut⟩ := decode_take_of_follows hback hn
      exact .inr (.inl ⟨part, cause, hcut, Layout.remaining_lt_needed he⟩)
    · obtain ⟨back, hback⟩ := follows_read hfits 0
      by_cases hend : t = []
      · rw [hend, List.append_nil]
        exact .inl ⟨back, decode_of_follows hback⟩
      · exact .inr (.inr ⟨t.length, List.length_pos_iff.mpr hend,
          decode_append_of_follows hback hend⟩)

/-- The number of inputs takes three bytes here, and the script of the only input is broken. Cut
behind the first byte of the count, cut inside the script (whatever it holds) and with a byte too
many, the bytes are refused. -/
theorem decode_prefix_free_wide :
    let encoding (script : Bytes) : Bytes := [1, 0, 0, 0, 0xfd, 1, 0] ++ List.replicate 36 7 ++
      [2] ++ script ++ [0xff, 0xff, 0xff, 0xff] ++ [0] ++ [0, 0, 0, 0]
    let raw := encoding [0x51, 0x05]
    let cut := raw.take 45
    let cut' := (encoding [0x00, 0x4e]).take 45
    (∃ tx, decode raw = .ok tx) ∧
      (∃ part cause, decode (raw.take 5) = .error (.missing ⟨part, cause⟩) ∧
        cause.remaining < cause.needed) ∧
      decode (raw ++ [0]) = .error (.trailing 1) ∧
      SameOutline cut cut' ∧ decode cut = .error (.missing ⟨.unlockingScript, ⟨2, 1⟩⟩) ∧
      (fun _ => ()) <$> decode cut = (fun _ => ()) <$> decode cut' := by
  intro encoding raw cut cut'
  obtain ⟨hproper, -, -, hsame⟩ := decode_prefix_free
  have hdecode : decode raw = .ok
      { inputs := [{ outpoint := ⟨⟨List.replicate 32 7, rfl⟩, 0x07070707⟩
                     unlocking := .decode [0x51, 0x05]
                     range := ⟨7, 50⟩ }]
        range := ⟨0, 55⟩ } := rfl
  obtain ⟨hstart, hmore⟩ := hproper raw _ hdecode
  have hrawLength : raw.length = 55 := rfl
  have hfront : raw.take 5 ≠ raw := by
    intro h
    have := congrArg List.length h
    rw [List.length_take, hrawLength] at this
    omega
  let input (script : Script) : TransactionInput :=
    { outpoint := ⟨⟨List.replicate 32 7, rfl⟩, 0x07070707⟩, unlocking := script }
  let tx : Transaction :=
    { inputs := [input ⟨[.code 0x51], some ⟨⟨5, 0⟩, [0x05]⟩⟩] }
  let tx' : Transaction := { inputs := [input ⟨[.code 0x00], some ⟨⟨4, 0⟩, [0x4e]⟩⟩] }
  let forms : Forms := ⟨.short, [.byte], .byte, []⟩
  have hfits : forms.All Form.Fits tx :=
    ⟨by decide, .cons (by decide) .nil, by decide, .nil⟩
  have hcut : cut = (tx.encodeIn forms).take 45 := by decide +kernel
  have hcut' : cut' = (tx'.encodeIn forms).take 45 := by decide +kernel
  have houtline : SameOutline cut cut' :=
    ⟨forms, tx, tx', hfits, rfl, rfl, .inl ⟨45, hcut, hcut'⟩⟩
  exact ⟨⟨_, hdecode⟩, hstart _ (List.take_prefix 5 raw) hfront, hmore [0] (by decide), houtline,
    rfl, hsame _ _ houtline⟩

end Transaction

end Utxo
