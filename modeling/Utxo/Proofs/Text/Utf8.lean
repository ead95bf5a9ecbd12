import Utxo.Text.Utf8

/-!
# Text survives being written

Reading bytes as text never fails, but it may put U+FFFD for what it finds. Of bytes that were
written for some text it finds every character as it was, and where it puts no U+FFFD the bytes are
those that the text is written as.
-/

namespace Utxo.Utf8

variable {lead second third fourth b : UInt8} {more tail rest : Bytes} {c : Char} {taken n : Nat}

/-! ## Bytes as numbers -/

theorem followers_eq (lead : UInt8) : followers lead =
    if lead.toNat < 0xc2 then 0 else if lead.toNat < 0xe0 then 1
    else if lead.toNat < 0xf0 then 2 else if lead.toNat < 0xf5 then 3 else 0 := rfl

theorem between_iff {low high : UInt8} :
    (decide (low ≤ b) && decide (b ≤ high)) = true ↔
      low.toNat ≤ b.toNat ∧ b.toNat ≤ high.toNat := by
  simp [UInt8.le_iff_toNat_le]

theorem codePoint_one (lead b : UInt8) :
    codePoint lead [b] = lead.toNat % 32 * 64 + (b.toNat - 0x80) := by
  simp [codePoint]

theorem codePoint_two (lead b b' : UInt8) : codePoint lead [b, b'] =
    (lead.toNat % 16 * 64 + (b.toNat - 0x80)) * 64 + (b'.toNat - 0x80) := by
  simp [codePoint]

theorem codePoint_three (lead b b' b'' : UInt8) : codePoint lead [b, b', b''] =
    ((lead.toNat % 8 * 64 + (b.toNat - 0x80)) * 64 + (b'.toNat - 0x80)) * 64 +
      (b''.toNat - 0x80) := by
  simp [codePoint]

/-- A byte behind the first one, with six bits of a character. -/
theorem toNat_follower (n : Nat) : (UInt8.ofNat (n % 64 + 128)).toNat = n % 64 + 128 :=
  UInt8.toNat_ofNat_of_lt' (by unfold UInt8.size; omega)

theorem isFollower_ofNat (n : Nat) : isFollower (UInt8.ofNat (n % 64 + 128)) = true := by
  refine between_iff.mpr ?_
  rw [toNat_follower]
  show 128 ≤ n % 64 + 128 ∧ n % 64 + 128 ≤ 191
  omega

/-- A second byte lies in the range of followers, and in a part of it behind four of the leads. -/
theorem isSecond_of_toNat (hb : 0x80 ≤ b.toNat ∧ b.toNat ≤ 0xbf)
    (he0 : lead.toNat = 0xe0 → 0xa0 ≤ b.toNat) (hed : lead.toNat = 0xed → b.toNat ≤ 0x9f)
    (hf0 : lead.toNat = 0xf0 → 0x90 ≤ b.toNat) (hf4 : lead.toNat = 0xf4 → b.toNat ≤ 0x8f) :
    isSecond lead b = true := by
  unfold isSecond
  split
  · rename_i h
    exact between_iff.mpr ⟨he0 (by rw [h]; rfl), hb.2⟩
  · split
    · rename_i h
      exact between_iff.mpr ⟨hb.1, hed (by rw [h]; rfl)⟩
    · split
      · rename_i h
        exact between_iff.mpr ⟨hf0 (by rw [h]; rfl), hb.2⟩
      · split
        · rename_i h
          exact between_iff.mpr ⟨hb.1, hf4 (by rw [h]; rfl)⟩
        · exact between_iff.mpr hb

/-! ## One character -/

theorem continuation_append (hsecond : isSecond lead second = true)
    (htail : ∀ b ∈ tail, isFollower b = true) (hlength : followers lead = tail.length + 1) :
    continuation lead (second :: tail ++ rest) = second :: tail := by
  have hall : (tail ++ []).takeWhile isFollower = tail ++ [].takeWhile isFollower :=
    List.takeWhile_append_of_pos htail
  rw [List.takeWhile_nil, List.append_nil] at hall
  rw [List.cons_append, continuation, if_pos hsecond, hlength, Nat.add_sub_cancel, List.take_left,
    hall]

theorem next_append (hsecond : isSecond lead second = true)
    (htail : ∀ b ∈ tail, isFollower b = true) (hlength : followers lead = tail.length + 1)
    (hc : codePoint lead (second :: tail) = c.toNat) :
    next lead (second :: tail ++ rest) = (c, tail.length + 1) := by
  have hlead : ¬lead < 0x80 := by
    intro hlow
    rw [UInt8.lt_iff_toNat_lt] at hlow
    rw [followers_eq, if_pos (Nat.lt_trans hlow (by decide))] at hlength
    omega
  unfold next
  rw [if_neg hlead, if_neg (by omega), continuation_append hsecond htail hlength]
  simp only [List.length_cons]
  rw [if_pos hlength.symm, hc, Char.ofNat_toNat]

theorem decodeChars_of_next (h : next lead (more ++ rest) = (c, more.length)) :
    decodeChars (lead :: more ++ rest) = c :: decodeChars rest := by
  rw [List.cons_append, decodeChars, h]
  simp only [List.drop_left]

theorem decodeChars_one (h : c.toNat < 0x80) :
    decodeChars ([.ofNat c.toNat] ++ rest) = c :: decodeChars rest := by
  have hbyte := UInt8.toNat_ofNat_of_lt' (n := c.toNat) (by unfold UInt8.size; omega)
  have hlead : UInt8.ofNat c.toNat < 0x80 := by
    rw [UInt8.lt_iff_toNat_lt, hbyte]
    exact h
  have hnext : next (.ofNat c.toNat) ([] ++ rest) = (c, 0) := by
    rw [next, if_pos hlead, hbyte, Char.ofNat_toNat]
  exact decodeChars_of_next hnext

theorem decodeChars_two (hlow : 0x80 ≤ c.toNat) (hhigh : c.toNat < 0x800) :
    decodeChars ([.ofNat (c.toNat / 64 % 32 + 192), .ofNat (c.toNat % 64 + 128)] ++ rest) =
      c :: decodeChars rest := by
  have hlead := UInt8.toNat_ofNat_of_lt' (n := c.toNat / 64 % 32 + 192)
    (by unfold UInt8.size; omega)
  have hsecond : isSecond (.ofNat (c.toNat / 64 % 32 + 192)) (.ofNat (c.toNat % 64 + 128)) := by
    apply isSecond_of_toNat <;> simp only [hlead, toNat_follower] <;> omega
  have hfollowers : followers (.ofNat (c.toNat / 64 % 32 + 192)) = 1 := by
    rw [followers_eq, hlead, if_neg (by omega), if_pos (by omega)]
  refine decodeChars_of_next (next_append hsecond nofun hfollowers ?_)
  rw [codePoint_one, hlead, toNat_follower]
  omega

-- From here on the bounds on the second byte leave out what has a shorter form, and surrogates.
theorem decodeChars_three (hlow : 0x800 ≤ c.toNat) (hhigh : c.toNat < 0x10000)
    (hvalid : c.toNat < 0xd800 ∨ 0xdfff < c.toNat) :
    decodeChars ([.ofNat (c.toNat / 4096 % 16 + 224), .ofNat (c.toNat / 64 % 64 + 128),
      .ofNat (c.toNat % 64 + 128)] ++ rest) = c :: decodeChars rest := by
  have hlead := UInt8.toNat_ofNat_of_lt' (n := c.toNat / 4096 % 16 + 224)
    (by unfold UInt8.size; omega)
  have hsecond :
      isSecond (.ofNat (c.toNat / 4096 % 16 + 224)) (.ofNat (c.toNat / 64 % 64 + 128)) := by
    apply isSecond_of_toNat <;> simp only [hlead, toNat_follower] <;> omega
  have hfollowers : followers (.ofNat (c.toNat / 4096 % 16 + 224)) = 2 := by
    rw [followers_eq, hlead, if_neg (by omega), if_neg (by omega), if_pos (by omega)]
  have htail : ∀ b ∈ ([.ofNat (c.toNat % 64 + 128)] : Bytes), isFollower b = true :=
    List.forall_mem_singleton.mpr (isFollower_ofNat _)
  refine decodeChars_of_next (next_append hsecond htail hfollowers ?_)
  rw [codePoint_two, hlead, toNat_follower, toNat_follower]
  omega

theorem decodeChars_four (hlow : 0x10000 ≤ c.toNat) (hhigh : c.toNat < 0x110000) :
    decodeChars ([.ofNat (c.toNat / 262144 % 8 + 240), .ofNat (c.toNat / 4096 % 64 + 128),
      .ofNat (c.toNat / 64 % 64 + 128), .ofNat (c.toNat % 64 + 128)] ++ rest) =
      c :: decodeChars rest := by
  have hlead := UInt8.toNat_ofNat_of_lt' (n := c.toNat / 262144 % 8 + 240)
    (by unfold UInt8.size; omega)
  have hsecond :
      isSecond (.ofNat (c.toNat / 262144 % 8 + 240)) (.ofNat (c.toNat / 4096 % 64 + 128)) := by
    apply isSecond_of_toNat <;> simp only [hlead, toNat_follower] <;> omega
  have hfollowers : followers (.ofNat (c.toNat / 262144 % 8 + 240)) = 3 := by
    rw [followers_eq, hlead, if_neg (by omega), if_neg (by omega), if_neg (by omega),
      if_pos (by omega)]
  have htail : ∀ b ∈ ([.ofNat (c.toNat / 64 % 64 + 128), .ofNat (c.toNat % 64 + 128)] : Bytes),
      isFollower b = true :=
    List.forall_mem_cons.mpr
      ⟨isFollower_ofNat _, List.forall_mem_singleton.mpr (isFollower_ofNat _)⟩
  refine decodeChars_of_next (next_append hsecond htail hfollowers ?_)
  rw [codePoint_three, hlead, toNat_follower, toNat_follower, toNat_follower]
  omega

theorem decodeChars_encodeChar_append (c : Char) (rest : Bytes) :
    decodeChars (String.utf8EncodeChar c ++ rest) = c :: decodeChars rest := by
  have hvalid : c.toNat < 0xd800 ∨ 0xdfff < c.toNat ∧ c.toNat < 0x110000 := c.valid
  have hval : c.val.toNat = c.toNat := rfl
  unfold String.utf8EncodeChar
  simp only [hval]
  split
  · exact decodeChars_one (by omega)
  · split
    · exact decodeChars_two (by omega) (by omega)
    · split
      · exact decodeChars_three (by omega) (by omega) (by omega)
      · exact decodeChars_four (by omega) (by omega)

/-- Text that was written is read as it was. -/
theorem decode_encode (text : String) : decode (encode text) = text := by
  have hchars (chars : List Char) :
      decodeChars (chars.flatMap String.utf8EncodeChar) = chars := by
    induction chars with
    | nil => rw [List.flatMap_nil, decodeChars]
    | cons c chars ih => rw [List.flatMap_cons, decodeChars_encodeChar_append, ih]
  rw [decode, encode, hchars, String.ofList_toList]

/-! ## Bytes that are read without loss -/

theorem toNat_ofNat_of_isValidChar (h : n.isValidChar) : (Char.ofNat n).toNat = n := by
  rw [Char.ofNat, dif_pos h]
  rfl

/-- How many bytes follow says in which range the first one is. -/
theorem followers_cases (lead : UInt8) : followers lead = 0 ∨
    followers lead = 1 ∧ 0xc2 ≤ lead.toNat ∧ lead.toNat < 0xe0 ∨
    followers lead = 2 ∧ 0xe0 ≤ lead.toNat ∧ lead.toNat < 0xf0 ∨
    followers lead = 3 ∧ 0xf0 ≤ lead.toNat ∧ lead.toNat < 0xf5 := by
  rw [followers_eq]
  grind

theorem toNat_of_isFollower (h : isFollower b = true) : 0x80 ≤ b.toNat ∧ b.toNat ≤ 0xbf :=
  between_iff.mp h

theorem toNat_of_isSecond (h : isSecond lead b = true) :
    (0x80 ≤ b.toNat ∧ b.toNat ≤ 0xbf) ∧ (lead.toNat = 0xe0 → 0xa0 ≤ b.toNat) ∧
      (lead.toNat = 0xed → b.toNat ≤ 0x9f) ∧ (lead.toNat = 0xf0 → 0x90 ≤ b.toNat) ∧
      (lead.toNat = 0xf4 → b.toNat ≤ 0x8f) := by
  unfold isSecond at h
  simp only [← UInt8.toNat_inj, UInt8.reduceToNat] at h
  split at h
  · have hb : 0xa0 ≤ b.toNat ∧ b.toNat ≤ 0xbf := between_iff.mp h
    omega
  · split at h
    · have hb : 0x80 ≤ b.toNat ∧ b.toNat ≤ 0x9f := between_iff.mp h
      omega
    · split at h
      · have hb : 0x90 ≤ b.toNat ∧ b.toNat ≤ 0xbf := between_iff.mp h
        omega
      · split at h
        · have hb : 0x80 ≤ b.toNat ∧ b.toNat ≤ 0x8f := between_iff.mp h
          omega
        · have hb := toNat_of_isFollower h
          omega

theorem ofNat_eq_of_toNat {x : UInt8} (h : n = x.toNat) : UInt8.ofNat n = x := by
  rw [h, UInt8.ofNat_toNat]

theorem encodeChar_one (hlead : lead.toNat < 0x80) :
    String.utf8EncodeChar (Char.ofNat lead.toNat) = [lead] := by
  have hvalue : (Char.ofNat lead.toNat).val.toNat = lead.toNat :=
    toNat_ofNat_of_isValidChar (.inl (by omega))
  unfold String.utf8EncodeChar
  simp only [hvalue]
  rw [if_pos (by omega), UInt8.ofNat_toNat]

theorem encodeChar_two (hlead : 0xc2 ≤ lead.toNat ∧ lead.toNat < 0xe0)
    (hsecond : isSecond lead second = true) :
    String.utf8EncodeChar (Char.ofNat (codePoint lead [second])) = [lead, second] := by
  have hb := toNat_of_isSecond hsecond
  rw [codePoint_one]
  generalize hn : lead.toNat % 32 * 64 + (second.toNat - 0x80) = n
  have hvalue : (Char.ofNat n).val.toNat = n := toNat_ofNat_of_isValidChar (.inl (by omega))
  unfold String.utf8EncodeChar
  simp only [hvalue]
  rw [if_neg (by omega), if_pos (by omega)]
  rw [ofNat_eq_of_toNat (x := lead) (by omega), ofNat_eq_of_toNat (x := second) (by omega)]

theorem encodeChar_three (hlead : 0xe0 ≤ lead.toNat ∧ lead.toNat < 0xf0)
    (hsecond : isSecond lead second = true) (hthird : isFollower third = true) :
    String.utf8EncodeChar (Char.ofNat (codePoint lead [second, third])) =
      [lead, second, third] := by
  have hb := toNat_of_isSecond hsecond
  have hb' := toNat_of_isFollower hthird
  rw [codePoint_two]
  generalize hn :
    (lead.toNat % 16 * 64 + (second.toNat - 0x80)) * 64 + (third.toNat - 0x80) = n
  have hvalid : n.isValidChar := by
    unfold Nat.isValidChar
    omega
  have hvalue : (Char.ofNat n).val.toNat = n := toNat_ofNat_of_isValidChar hvalid
  unfold String.utf8EncodeChar
  simp only [hvalue]
  rw [if_neg (by omega), if_neg (by omega), if_pos (by omega)]
  rw [ofNat_eq_of_toNat (x := lead) (by omega), ofNat_eq_of_toNat (x := second) (by omega),
    ofNat_eq_of_toNat (x := third) (by omega)]

theorem encodeChar_four (hlead : 0xf0 ≤ lead.toNat ∧ lead.toNat < 0xf5)
    (hsecond : isSecond lead second = true) (hthird : isFollower third = true)
    (hfourth : isFollower fourth = true) :
    String.utf8EncodeChar (Char.ofNat (codePoint lead [second, third, fourth])) =
      [lead, second, third, fourth] := by
  have hb := toNat_of_isSecond hsecond
  have hb' := toNat_of_isFollower hthird
  have hb'' := toNat_of_isFollower hfourth
  rw [codePoint_three]
  generalize hn : ((lead.toNat % 8 * 64 + (second.toNat - 0x80)) * 64 + (third.toNat - 0x80)) * 64 +
    (fourth.toNat - 0x80) = n
  have hvalid : n.isValidChar := by
    unfold Nat.isValidChar
    omega
  have hvalue : (Char.ofNat n).val.toNat = n := toNat_ofNat_of_isValidChar hvalid
  unfold String.utf8EncodeChar
  simp only [hvalue]
  rw [if_neg (by omega), if_neg (by omega), if_neg (by omega)]
  rw [ofNat_eq_of_toNat (x := lead) (by omega), ofNat_eq_of_toNat (x := second) (by omega),
    ofNat_eq_of_toNat (x := third) (by omega), ofNat_eq_of_toNat (x := fourth) (by omega)]

theorem continuation_cases (h : continuation lead rest ≠ []) :
    ∃ second tail, continuation lead rest = second :: tail ∧ isSecond lead second = true ∧
      (∀ b ∈ tail, isFollower b = true) ∧ second :: tail <+: rest := by
  cases rest with
  | nil => exact absurd rfl h
  | cons second rest =>
    rw [continuation] at h ⊢
    by_cases hsecond : isSecond lead second = true
    · rw [if_pos hsecond]
      refine ⟨second, _, rfl, hsecond, ?_, ?_⟩
      · exact List.all_eq_true.mp List.all_takeWhile
      · have htail := (List.takeWhile_prefix isFollower).trans
          (List.take_prefix (followers lead - 1) rest)
        simpa using htail
    · rw [if_neg hsecond] at h
      exact absurd rfl h

/-- A character of several bytes is written as the bytes that it was read from. -/
theorem encodeChar_codePoint (hsecond : isSecond lead second = true)
    (htail : ∀ b ∈ tail, isFollower b = true) (hlength : tail.length + 1 = followers lead) :
    String.utf8EncodeChar (Char.ofNat (codePoint lead (second :: tail))) =
      lead :: second :: tail := by
  rcases followers_cases lead with hnone | ⟨hone, hlead⟩ | ⟨htwo, hlead⟩ | ⟨hthree, hlead⟩
  · omega
  · obtain rfl : tail = [] := List.eq_nil_of_length_eq_zero (by omega)
    exact encodeChar_two hlead hsecond
  · obtain ⟨third, rfl⟩ := List.length_eq_one_iff.mp (by omega : tail.length = 1)
    exact encodeChar_three hlead hsecond (htail third (by simp))
  · obtain ⟨third, tail, rfl⟩ := List.exists_cons_of_length_eq_add_one (by omega : tail.length = 2)
    obtain ⟨fourth, rfl⟩ := List.length_eq_one_iff.mp (by simpa [hthree] using hlength)
    exact encodeChar_four hlead hsecond (htail third (by simp)) (htail fourth (by simp))

theorem encodeChar_next (h : next lead rest = (c, taken)) (hc : c ≠ replacement) :
    String.utf8EncodeChar c ++ rest.drop taken = lead :: rest := by
  unfold next at h
  by_cases hone : lead < 0x80
  · rw [if_pos hone] at h
    cases h
    rw [encodeChar_one (UInt8.lt_iff_toNat_lt.mp hone)]
    rfl
  rw [if_neg hone] at h
  by_cases hnone : followers lead = 0
  · rw [if_pos hnone] at h
    cases h
    exact absurd rfl hc
  rw [if_neg hnone] at h
  by_cases hlength : (continuation lead rest).length = followers lead
  · simp only [hlength, if_true, Prod.mk.injEq] at h
    have hne : continuation lead rest ≠ [] := by
      intro hnil
      rw [hnil, List.length_nil] at hlength
      exact hnone hlength.symm
    obtain ⟨second, tail, hmore, hsecond, htail, more, rfl⟩ := continuation_cases hne
    rw [hmore] at h hlength
    obtain ⟨rfl, rfl⟩ := h
    rw [encodeChar_codePoint hsecond htail hlength, ← hlength, List.drop_left]
    rfl
  · simp only [hlength, if_false, Prod.mk.injEq] at h
    exact absurd h.1.symm hc

theorem flatMap_decodeChars {b : Bytes} (h : replacement ∉ decodeChars b) :
    (decodeChars b).flatMap String.utf8EncodeChar = b := by
  induction b using decodeChars.induct with
  | case1 => rw [decodeChars, List.flatMap_nil]
  | case2 lead rest c taken hnext ih =>
    rw [decodeChars, hnext] at h ⊢
    rw [List.mem_cons, not_or] at h
    rw [List.flatMap_cons, ih h.2]
    exact encodeChar_next hnext (Ne.symm h.1)

/-- Text without U+FFFD is read from no other bytes than those that it is written as. -/
theorem decode_eq_iff {b : Bytes} {text : String} (h : replacement ∉ text.toList) :
    decode b = text ↔ b = encode text := by
  constructor
  · rintro rfl
    unfold decode at h ⊢
    rw [String.toList_ofList] at h
    rw [encode, String.toList_ofList, flatMap_decodeChars h]
  · rintro rfl
    exact decode_encode text

/-! ## Characters of one byte -/

theorem decodeChars_ascii {b : Bytes} (h : ∀ x ∈ b, x < 0x80) :
    decodeChars b = b.map fun x => Char.ofNat x.toNat := by
  induction b with
  | nil => rw [decodeChars, List.map_nil]
  | cons x rest ih =>
    rw [List.forall_mem_cons] at h
    rw [decodeChars, next, if_pos h.1]
    exact congrArg (Char.ofNat x.toNat :: ·) (ih h.2)

/-- A text in bytes below `80` has a character for each of them. -/
theorem toList_of_ascii {text : String} (h : ∀ x ∈ encode text, x < 0x80) :
    text.toList = (encode text).map fun x => Char.ofNat x.toNat := by
  rw [← decodeChars_ascii h, ← String.toList_ofList (l := decodeChars _)]
  exact congrArg String.toList (decode_encode text).symm

theorem byte_of_ascii {c : Char} (h : c.toNat < 0x80) :
    UInt8.ofNat c.toNat < 0x80 ∧ Char.ofNat (UInt8.ofNat c.toNat).toNat = c := by
  have hbyte : (UInt8.ofNat c.toNat).toNat = c.toNat :=
    UInt8.toNat_ofNat_of_lt' (Nat.lt_trans h (by decide))
  rw [UInt8.lt_iff_toNat_lt, hbyte, Char.ofNat_toNat]
  exact ⟨h, rfl⟩

theorem encode_ofList_ascii {cs : List Char} (h : ∀ c ∈ cs, c.toNat < 0x80) :
    encode (String.ofList cs) = cs.map fun c => UInt8.ofNat c.toNat := by
  rw [encode, String.toList_ofList]
  induction cs with
  | nil => rfl
  | cons c rest ih =>
    rw [List.forall_mem_cons] at h
    obtain ⟨hlt, hback⟩ := byte_of_ascii h.1
    have hone := encodeChar_one (UInt8.lt_iff_toNat_lt.mp hlt)
    rw [hback] at hone
    rw [List.flatMap_cons, List.map_cons, hone, ih h.2]
    rfl

end Utxo.Utf8
