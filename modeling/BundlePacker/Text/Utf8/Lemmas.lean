import BundlePacker.Text.Utf8

/-!
# Decoding undoes encoding

Every character is read back from its bytes, whatever follows them, and only those bytes are read as
the character.  So a byte sequence is well-formed exactly when it encodes some text, and then it
encodes only one.
-/

namespace BundlePacker.Utf8

/-! ## Characters and their codes -/

theorem toNat_range (character : Char) :
    character.toNat < 0xD800 ∨ 0xDFFF < character.toNat ∧ character.toNat < 0x110000 :=
  character.valid

theorem toNat_ofNat (code : Nat) (valid : code < 0xD800 ∨ 0xDFFF < code ∧ code < 0x110000) :
    (Char.ofNat code).toNat = code := by
  rw [Char.ofNat, dif_pos valid]
  rfl

theorem toNat_byte {value : Nat} (small : value < 256) : (UInt8.ofNat value).toNat = value :=
  UInt8.toNat_ofNat_of_lt' small

theorem byte_eq {byte : UInt8} {value : Nat} (same : value = byte.toNat) :
    UInt8.ofNat value = byte := by
  subst same
  exact UInt8.ofNat_toNat

/-! ## One step of reading -/

theorem piecesFrom_whole {byte : UInt8} {character : Char}
    (opens : Opening.ofByte byte = .whole character) (rest : Bytes) :
    piecesFrom none (byte :: rest) = some character :: piecesFrom none rest := by
  simp [piecesFrom, opens]

theorem piecesFrom_lead {byte : UInt8} {unfinished : Unfinished}
    (opens : Opening.ofByte byte = .lead unfinished) (rest : Bytes) :
    piecesFrom none (byte :: rest) = piecesFrom (some unfinished) rest := by
  simp [piecesFrom, opens]

theorem piecesFrom_last {code least greatest : Nat} {byte : UInt8} (above : least ≤ byte.toNat)
    (below : byte.toNat ≤ greatest) (rest : Bytes) :
    piecesFrom (some ⟨code, 0, least, greatest⟩) (byte :: rest) =
      some (Char.ofNat (code * 64 + (byte.toNat - 0x80))) :: piecesFrom none rest := by
  simp [piecesFrom, above, below]

theorem piecesFrom_further {code further least greatest : Nat} {byte : UInt8}
    (above : least ≤ byte.toNat) (below : byte.toNat ≤ greatest) (rest : Bytes) :
    piecesFrom (some ⟨code, further + 1, least, greatest⟩) (byte :: rest) =
      piecesFrom (some ⟨code * 64 + (byte.toNat - 0x80), further, 0x80, 0xBF⟩) rest := by
  simp [piecesFrom, above, below]

/-! ## Reading what has been written -/

/-- The bytes of a character are read as that character. -/
theorem piecesFrom_encodeChar (character : Char) (rest : Bytes) :
    piecesFrom none (encodeChar character ++ rest) = some character :: piecesFrom none rest := by
  have range := toNat_range character
  have whole : Char.ofNat character.toNat = character := Char.ofNat_toNat character
  simp only [encodeChar]
  generalize character.toNat = code at range whole
  split
  · next small =>
    have value := toNat_byte (show code < 256 by omega)
    have opens : Opening.ofByte (UInt8.ofNat code) = .whole character := by
      simp [Opening.ofByte, value, small, whole]
    exact piecesFrom_whole opens rest
  split
  · have first := toNat_byte (show 0xC0 + code / 64 < 256 by omega)
    have second := toNat_byte (show 0x80 + code % 64 < 256 by omega)
    have opens : Opening.ofByte (UInt8.ofNat (0xC0 + code / 64)) =
        .lead ⟨code / 64, 0, 0x80, 0xBF⟩ := by
      simp only [Opening.ofByte, first]
      rw [if_neg (by omega), if_neg (by omega), if_pos (by omega), Nat.add_sub_cancel_left]
    have together : code / 64 * 64 + (0x80 + code % 64 - 0x80) = code := by omega
    rw [List.cons_append, piecesFrom_lead opens, List.cons_append,
      piecesFrom_last (by omega) (by omega), second, together, whole, List.nil_append]
  split
  · have first := toNat_byte (show 0xE0 + code / 4096 < 256 by omega)
    have second := toNat_byte (show 0x80 + code / 64 % 64 < 256 by omega)
    have third := toNat_byte (show 0x80 + code % 64 < 256 by omega)
    have opens : ∃ least greatest, Opening.ofByte (UInt8.ofNat (0xE0 + code / 4096)) =
        .lead ⟨code / 4096, 1, least, greatest⟩ ∧ least ≤ 0x80 + code / 64 % 64 ∧
          0x80 + code / 64 % 64 ≤ greatest := by
      simp only [Opening.ofByte, first]
      rw [if_neg (by omega), if_neg (by omega), if_neg (by omega), Nat.add_sub_cancel_left]
      split
      · exact ⟨_, _, rfl, by omega, by omega⟩
      split
      · exact ⟨_, _, rfl, by omega, by omega⟩
      rw [if_pos (by omega)]
      exact ⟨_, _, rfl, by omega, by omega⟩
    obtain ⟨least, greatest, opens, above, below⟩ := opens
    have together : (code / 4096 * 64 + (0x80 + code / 64 % 64 - 0x80)) * 64 +
        (0x80 + code % 64 - 0x80) = code := by omega
    rw [List.cons_append, piecesFrom_lead opens, List.cons_append,
      piecesFrom_further (by omega) (by omega), List.cons_append,
      piecesFrom_last (by omega) (by omega), second, third, together, whole, List.nil_append]
  · have first := toNat_byte (show 0xF0 + code / 262144 < 256 by omega)
    have second := toNat_byte (show 0x80 + code / 4096 % 64 < 256 by omega)
    have third := toNat_byte (show 0x80 + code / 64 % 64 < 256 by omega)
    have fourth := toNat_byte (show 0x80 + code % 64 < 256 by omega)
    have opens : ∃ least greatest, Opening.ofByte (UInt8.ofNat (0xF0 + code / 262144)) =
        .lead ⟨code / 262144, 2, least, greatest⟩ ∧ least ≤ 0x80 + code / 4096 % 64 ∧
          0x80 + code / 4096 % 64 ≤ greatest := by
      simp only [Opening.ofByte, first]
      rw [if_neg (by omega), if_neg (by omega), if_neg (by omega), if_neg (by omega),
        if_neg (by omega), if_neg (by omega), Nat.add_sub_cancel_left]
      split
      · exact ⟨_, _, rfl, by omega, by omega⟩
      split
      · exact ⟨_, _, rfl, by omega, by omega⟩
      rw [if_pos (by omega)]
      exact ⟨_, _, rfl, by omega, by omega⟩
    obtain ⟨least, greatest, opens, above, below⟩ := opens
    have together : ((code / 262144 * 64 + (0x80 + code / 4096 % 64 - 0x80)) * 64 +
        (0x80 + code / 64 % 64 - 0x80)) * 64 + (0x80 + code % 64 - 0x80) = code := by omega
    rw [List.cons_append, piecesFrom_lead opens, List.cons_append,
      piecesFrom_further (by omega) (by omega), List.cons_append,
      piecesFrom_further (by omega) (by omega), List.cons_append,
      piecesFrom_last (by omega) (by omega), second, third, fourth, together, whole,
      List.nil_append]

theorem pieces_encode_append (characters : List Char) (rest : Bytes) :
    pieces (encode characters ++ rest) = characters.map some ++ pieces rest := by
  induction characters with
  | nil => simp
  | cons character others hypothesis =>
    simp only [pieces] at hypothesis ⊢
    rw [encode_cons, List.append_assoc, piecesFrom_encodeChar, hypothesis]
    simp

@[simp]
theorem wellFormed?_map_some (characters : List Char) :
    wellFormed? (characters.map some) = some characters := by
  induction characters with
  | nil => rfl
  | cons character others hypothesis => simp [wellFormed?, hypothesis]

@[simp]
theorem decode?_encode (characters : List Char) :
    decode? (encode characters) = some characters := by
  have whole := pieces_encode_append characters []
  rw [List.append_nil] at whole
  rw [decode?, whole]
  simp [pieces, piecesFrom]

/-! ## Only what has been written is read -/

/-- What has been read of a longer character goes on with a byte within the bounds. -/
theorem exists_of_wellFormed?_piecesFrom {unfinished : Unfinished} {bytes : Bytes}
    {characters : List Char}
    (reads : wellFormed? (piecesFrom (some unfinished) bytes) = some characters) :
    ∃ byte rest, bytes = byte :: rest ∧ unfinished.least ≤ byte.toNat ∧
      byte.toNat ≤ unfinished.greatest := by
  cases bytes with
  | nil => simp [piecesFrom, wellFormed?] at reads
  | cons byte rest =>
    refine ⟨byte, rest, rfl, ?_⟩
    refine Classical.byContradiction fun outside => ?_
    simp only [piecesFrom, outside, if_false] at reads
    split at reads <;> simp [wellFormed?] at reads

theorem encodeChar_whole {byte : UInt8} {character : Char}
    (opens : Opening.ofByte byte = .whole character) : encodeChar character = [byte] := by
  simp only [Opening.ofByte] at opens
  split at opens
  · next small =>
    cases opens
    have code := toNat_ofNat byte.toNat (.inl (by omega))
    simp only [encodeChar, code]
    rw [if_pos small, byte_eq rfl]
  · repeat' split at opens
    all_goals cases opens

/-- The kinds of first bytes of longer characters. -/
theorem lead_cases {byte : UInt8} {unfinished : Unfinished}
    (opens : Opening.ofByte byte = .lead unfinished) :
    (0xC2 ≤ byte.toNat ∧ byte.toNat < 0xE0 ∧
        unfinished.code = byte.toNat - 0xC0 ∧ unfinished.further = 0 ∧
        0x80 ≤ unfinished.least ∧ unfinished.greatest ≤ 0xBF) ∨
      (0xE0 ≤ byte.toNat ∧ byte.toNat < 0xF0 ∧
        unfinished.code = byte.toNat - 0xE0 ∧ unfinished.further = 1 ∧
        0x80 ≤ unfinished.least ∧ unfinished.greatest ≤ 0xBF ∧
        (byte.toNat = 0xE0 → 0xA0 ≤ unfinished.least) ∧
        (byte.toNat = 0xED → unfinished.greatest ≤ 0x9F)) ∨
      (0xF0 ≤ byte.toNat ∧ byte.toNat < 0xF5 ∧
        unfinished.code = byte.toNat - 0xF0 ∧ unfinished.further = 2 ∧
        0x80 ≤ unfinished.least ∧ unfinished.greatest ≤ 0xBF ∧
        (byte.toNat = 0xF0 → 0x90 ≤ unfinished.least) ∧
        (byte.toNat = 0xF4 → unfinished.greatest ≤ 0x8F)) := by
  simp only [Opening.ofByte] at opens
  split at opens
  · cases opens
  split at opens
  · cases opens
  split at opens
  · injection opens with same
    subst same
    exact .inl ⟨by omega, by omega, rfl, rfl, by simp, by simp⟩
  split at opens
  · injection opens with same
    subst same
    exact .inr (.inl ⟨by omega, by omega, rfl, rfl, by simp, by simp, by simp, by omega⟩)
  split at opens
  · injection opens with same
    subst same
    exact .inr (.inl ⟨by omega, by omega, rfl, rfl, by simp, by simp, by omega, by simp⟩)
  split at opens
  · injection opens with same
    subst same
    exact .inr (.inl ⟨by omega, by omega, rfl, rfl, by simp, by simp, by omega, by omega⟩)
  split at opens
  · injection opens with same
    subst same
    exact .inr (.inr ⟨by omega, by omega, rfl, rfl, by simp, by simp, by simp, by omega⟩)
  split at opens
  · injection opens with same
    subst same
    exact .inr (.inr ⟨by omega, by omega, rfl, rfl, by simp, by simp, by omega, by omega⟩)
  split at opens
  · injection opens with same
    subst same
    exact .inr (.inr ⟨by omega, by omega, rfl, rfl, by simp, by simp, by omega, by simp⟩)
  · cases opens

theorem encodeChar_two {first second : UInt8} (low : 0xC2 ≤ first.toNat) (high : first.toNat < 0xE0)
    (second_low : 0x80 ≤ second.toNat) (second_high : second.toNat ≤ 0xBF) :
    encodeChar (Char.ofNat ((first.toNat - 0xC0) * 64 + (second.toNat - 0x80))) =
      [first, second] := by
  have code := toNat_ofNat
    ((first.toNat - 0xC0) * 64 + (second.toNat - 0x80)) (.inl (by omega))
  simp only [encodeChar, code]
  rw [if_neg (by omega), if_pos (by omega)]
  simp only [List.cons.injEq, and_true]
  exact ⟨byte_eq (by omega), byte_eq (by omega)⟩

theorem encodeChar_three {first second third : UInt8} (low : 0xE0 ≤ first.toNat)
    (high : first.toNat < 0xF0) (second_low : 0x80 ≤ second.toNat)
    (second_high : second.toNat ≤ 0xBF)
    (not_short : first.toNat = 0xE0 → 0xA0 ≤ second.toNat)
    (no_surrogate : first.toNat = 0xED → second.toNat ≤ 0x9F)
    (third_low : 0x80 ≤ third.toNat) (third_high : third.toNat ≤ 0xBF) :
    encodeChar (Char.ofNat (((first.toNat - 0xE0) * 64 + (second.toNat - 0x80)) * 64 +
      (third.toNat - 0x80))) = [first, second, third] := by
  have code := toNat_ofNat (((first.toNat - 0xE0) * 64 + (second.toNat - 0x80)) * 64 +
    (third.toNat - 0x80)) (by omega)
  simp only [encodeChar, code]
  rw [if_neg (by omega), if_neg (by omega), if_pos (by omega)]
  simp only [List.cons.injEq, and_true]
  exact ⟨byte_eq (by omega), byte_eq (by omega), byte_eq (by omega)⟩

theorem encodeChar_four {first second third fourth : UInt8} (low : 0xF0 ≤ first.toNat)
    (high : first.toNat < 0xF5) (second_low : 0x80 ≤ second.toNat)
    (second_high : second.toNat ≤ 0xBF)
    (not_short : first.toNat = 0xF0 → 0x90 ≤ second.toNat)
    (not_beyond : first.toNat = 0xF4 → second.toNat ≤ 0x8F)
    (third_low : 0x80 ≤ third.toNat) (third_high : third.toNat ≤ 0xBF)
    (fourth_low : 0x80 ≤ fourth.toNat) (fourth_high : fourth.toNat ≤ 0xBF) :
    encodeChar (Char.ofNat ((((first.toNat - 0xF0) * 64 + (second.toNat - 0x80)) * 64 +
      (third.toNat - 0x80)) * 64 + (fourth.toNat - 0x80))) = [first, second, third, fourth] := by
  have code := toNat_ofNat ((((first.toNat - 0xF0) * 64 + (second.toNat - 0x80)) * 64 +
    (third.toNat - 0x80)) * 64 + (fourth.toNat - 0x80)) (by omega)
  simp only [encodeChar, code]
  rw [if_neg (by omega), if_neg (by omega), if_neg (by omega)]
  simp only [List.cons.injEq, and_true]
  exact ⟨byte_eq (by omega), byte_eq (by omega), byte_eq (by omega), byte_eq (by omega)⟩

/-- A first byte that begins a longer character is followed by the rest of its bytes. -/
theorem exists_encodeChar_of_lead {byte : UInt8} {rest : Bytes} {unfinished : Unfinished}
    {characters : List Char} (opens : Opening.ofByte byte = .lead unfinished)
    (reads : wellFormed? (piecesFrom (some unfinished) rest) = some characters) :
    ∃ character after, byte :: rest = encodeChar character ++ after ∧
      wellFormed? (some character :: piecesFrom none after) = some characters := by
  obtain ⟨second, after_second, rfl, above, below⟩ := exists_of_wellFormed?_piecesFrom reads
  obtain ⟨code, further, least, greatest⟩ := unfinished
  rcases lead_cases opens with two | three | four
  · obtain ⟨low, high, code_eq, further_eq, least_le, greatest_le⟩ := two
    simp only at above below code_eq further_eq least_le greatest_le
    rw [further_eq, piecesFrom_last above below, code_eq] at reads
    refine ⟨_, after_second, ?_, reads⟩
    rw [encodeChar_two low high (by omega) (by omega)]
    simp
  · obtain ⟨low, high, code_eq, further_eq, least_le, greatest_le, not_short, no_surrogate⟩ := three
    simp only at above below code_eq further_eq least_le greatest_le not_short no_surrogate
    rw [further_eq, piecesFrom_further above below, code_eq] at reads
    obtain ⟨third, after_third, rfl, third_above, third_below⟩ :=
      exists_of_wellFormed?_piecesFrom reads
    rw [piecesFrom_last third_above third_below] at reads
    refine ⟨_, after_third, ?_, reads⟩
    rw [encodeChar_three low high (by omega) (by omega) (by omega) (by omega) third_above
      third_below]
    simp
  · obtain ⟨low, high, code_eq, further_eq, least_le, greatest_le, not_short, not_beyond⟩ := four
    simp only at above below code_eq further_eq least_le greatest_le not_short not_beyond
    rw [further_eq, piecesFrom_further above below, code_eq] at reads
    obtain ⟨third, after_third, rfl, third_above, third_below⟩ :=
      exists_of_wellFormed?_piecesFrom reads
    rw [piecesFrom_further third_above third_below] at reads
    obtain ⟨fourth, after_fourth, rfl, fourth_above, fourth_below⟩ :=
      exists_of_wellFormed?_piecesFrom reads
    rw [piecesFrom_last fourth_above fourth_below] at reads
    refine ⟨_, after_fourth, ?_, reads⟩
    rw [encodeChar_four low high (by omega) (by omega) (by omega) (by omega) third_above
      third_below fourth_above fourth_below]
    simp

theorem eq_encode_of_decode? {bytes : Bytes} {characters : List Char}
    (reads : decode? bytes = some characters) : bytes = encode characters := by
  simp only [decode?, pieces] at reads
  induction characters generalizing bytes with
  | nil =>
    cases bytes with
    | nil => rfl
    | cons byte rest =>
      cases opens : Opening.ofByte byte with
      | whole character => simp [piecesFrom_whole opens, wellFormed?] at reads
      | stray => simp [piecesFrom, opens, wellFormed?] at reads
      | lead unfinished =>
        rw [piecesFrom_lead opens] at reads
        obtain ⟨character, after, _, later⟩ := exists_encodeChar_of_lead opens reads
        simp [wellFormed?] at later
  | cons head others hypothesis =>
    cases bytes with
    | nil => simp [piecesFrom, wellFormed?] at reads
    | cons byte rest =>
      have found : ∃ character after, byte :: rest = encodeChar character ++ after ∧
          wellFormed? (some character :: piecesFrom none after) = some (head :: others) := by
        cases opens : Opening.ofByte byte with
        | whole character =>
          rw [piecesFrom_whole opens] at reads
          exact ⟨character, rest, by simp [encodeChar_whole opens], reads⟩
        | stray => simp [piecesFrom, opens, wellFormed?] at reads
        | lead unfinished =>
          rw [piecesFrom_lead opens] at reads
          exact exists_encodeChar_of_lead opens reads
      obtain ⟨character, after, same, later⟩ := found
      simp only [wellFormed?, Option.map_eq_some_iff, List.cons.injEq] at later
      obtain ⟨others_read, reads_after, rfl, rfl⟩ := later
      rw [same, encode_cons, ← hypothesis reads_after]

/-- A byte sequence is decoded to the text that it encodes, and to no other. -/
theorem decode?_eq_some_iff {bytes : Bytes} {characters : List Char} :
    decode? bytes = some characters ↔ bytes = encode characters :=
  ⟨eq_encode_of_decode?, fun same => same ▸ decode?_encode characters⟩

theorem toString?_eq_some_iff {bytes : Bytes} {text : String} :
    toString? bytes = some text ↔ bytes = ofString text := by
  simp only [toString?, ofString, Option.map_eq_some_iff, decode?_eq_some_iff]
  constructor
  · rintro ⟨characters, rfl, rfl⟩
    simp
  · rintro rfl
    exact ⟨text.toList, rfl, by simp⟩

@[simp]
theorem toString?_ofString (text : String) : toString? (ofString text) = some text :=
  toString?_eq_some_iff.mpr rfl

theorem ofString_injective {first second : String} (same : ofString first = ofString second) :
    first = second := by
  have reads := toString?_ofString first
  rw [same, toString?_ofString] at reads
  exact (Option.some.inj reads).symm

@[simp]
theorem ofString_append (first second : String) :
    ofString (first ++ second) = ofString first ++ ofString second := by
  simp [ofString]

end BundlePacker.Utf8
