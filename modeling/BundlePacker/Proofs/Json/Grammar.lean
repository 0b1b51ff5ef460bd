import BundlePacker.Json.Skip
import BundlePacker.Proofs.Json.ReadBack

/-!
# The grammar of JSON

What counts as a JSON value is said here without a reader: by the forms of numbers and texts, and
by how lists and objects are put together from values, with blanks wherever they may stand.  A text
spells characters, each by itself or by one of the escapes that stand for it.

The main statement says that the reader of texts takes every spelling for what it spells.
-/

namespace BundlePacker.Json

/-! ## Numbers -/

namespace Number

/-- Whether bytes are decimal digits, and at least one. -/
def AreDigits (bytes : Bytes) : Prop :=
  bytes ≠ [] ∧ ∀ byte ∈ bytes, isDigit byte = true

/-- What may stand before the point of a number: no zero stands before another digit. -/
inductive IsWhole : Bytes → Prop
  | zero :
      IsWhole [zero]
  | digits {first : UInt8} {others : Bytes} (digit : isDigit first = true)
      (nonzero : first ≠ Number.zero) (more : ∀ byte ∈ others, isDigit byte = true) :
      IsWhole (first :: others)

/-- What may follow the digits before the point of a number. -/
inductive IsFraction : Bytes → Prop
  | absent :
      IsFraction []
  | present {digits : Bytes} (areDigits : AreDigits digits) :
      IsFraction (point :: digits)

/-- How a number may end. -/
inductive IsExponent : Bytes → Prop
  | absent :
      IsExponent []
  | present {mark : UInt8} {sign digits : Bytes} (marks : isExponentMark mark = true)
      (signs : sign = [] ∨ sign = [minus] ∨ sign = [plus]) (areDigits : AreDigits digits) :
      IsExponent (mark :: (sign ++ digits))

end Number

/-- The numbers of JSON. -/
inductive IsNumber : Bytes → Prop
  | parts {sign whole fraction exponent : Bytes} (signs : sign = [] ∨ sign = [Number.minus])
      (isWhole : Number.IsWhole whole) (isFraction : Number.IsFraction fraction)
      (isExponent : Number.IsExponent exponent) :
      IsNumber (sign ++ (whole ++ (fraction ++ exponent)))

/-! ## Texts -/

/-- The escapes of one letter, with what they stand for. -/
def shortEscapes : List (UInt8 × Char) :=
  [(quote, '"'), (backslash, '\\'), (0x2F, '/'), (0x62, '\x08'), (0x66, '\x0C'), (0x6E, '\n'),
    (0x72, '\r'), (0x74, '\t')]

/--
What may stand between quotes.  Nothing is said about the encoding or about pairs of surrogates,
which do not matter for where a text ends.
-/
inductive IsBody : Bytes → Prop
  | nil :
      IsBody []
  | plain {byte : UInt8} {rest : Bytes} (plain : IsPlain byte) (later : IsBody rest) :
      IsBody (byte :: rest)
  | letter {letter : UInt8} {rest : Bytes} (known : letter ∈ shortEscapes.map Prod.fst)
      (later : IsBody rest) :
      IsBody (backslash :: letter :: rest)
  | code {first second third fourth : UInt8} {number : Nat} {rest : Bytes}
      (digits : hexCode? first second third fourth = some number) (later : IsBody rest) :
      IsBody (backslash :: codeLetter :: first :: second :: third :: fourth :: rest)

/-- The first half of the pair of surrogates for a character. -/
def highSurrogate (character : Char) : Nat :=
  0xD800 + (character.toNat - 0x10000) / 0x400

/-- The second half of the pair of surrogates for a character. -/
def lowSurrogate (character : Char) : Nat :=
  0xDC00 + (character.toNat - 0x10000) % 0x400

/-- Whether bytes between quotes spell characters. -/
inductive Spells : Bytes → List Char → Prop
  | nil :
      Spells [] []
  /-- The character stands for itself. -/
  | plain {character : Char} {bytes : Bytes} {others : List Char} (noQuote : character ≠ '"')
      (noBackslash : character ≠ '\\') (noControl : 0x20 ≤ character.toNat)
      (later : Spells bytes others) :
      Spells (Utf8.encodeChar character ++ bytes) (character :: others)
  /-- The character has an escape of one letter. -/
  | letter {letter : UInt8} {character : Char} {bytes : Bytes} {others : List Char}
      (known : (letter, character) ∈ shortEscapes) (later : Spells bytes others) :
      Spells (backslash :: letter :: bytes) (character :: others)
  /-- The character is escaped by its number. -/
  | code {first second third fourth : UInt8} {character : Char} {bytes : Bytes}
      {others : List Char} (digits : hexCode? first second third fourth = some character.toNat)
      (later : Spells bytes others) :
      Spells (backslash :: codeLetter :: first :: second :: third :: fourth :: bytes)
        (character :: others)
  /-- The number of the character is too large for four digits. -/
  | pair {first second third fourth fifth sixth seventh eighth : UInt8} {character : Char}
      {bytes : Bytes} {others : List Char} (large : 0x10000 ≤ character.toNat)
      (high : hexCode? first second third fourth = some (highSurrogate character))
      (low : hexCode? fifth sixth seventh eighth = some (lowSurrogate character))
      (later : Spells bytes others) :
      Spells
        (backslash :: codeLetter :: first :: second :: third :: fourth :: backslash ::
          codeLetter :: fifth :: sixth :: seventh :: eighth :: bytes)
        (character :: others)

/-! ## Values -/

/-- Blanks between two tokens. -/
structure Blanks where
  bytes : Bytes
  space : AllSpace bytes

/-- No blanks. -/
def Blanks.none : Blanks :=
  ⟨[], allSpace_nil⟩

/-- A value in a list, with the blanks around it. -/
structure Item where
  before : Blanks
  value : Bytes
  after : Blanks

/-- The text of an item. -/
def Item.bytes (item : Item) : Bytes :=
  item.before.bytes ++ (item.value ++ item.after.bytes)

/-- A member of an object, with the blanks around its parts. -/
structure Member extends Item where
  beforeName : Blanks
  /-- What stands between the quotes of the name. -/
  spelling : Bytes
  afterName : Blanks

/-- The text of a member. -/
def Member.bytes (member : Member) : Bytes :=
  member.beforeName.bytes ++
    quote :: (member.spelling ++
      quote :: (member.afterName.bytes ++ colon :: member.toItem.bytes))

/-- A member without blanks whose name stands for itself. -/
def Member.plain (name : String) (value : Bytes) : Member where
  before := .none
  value := value
  after := .none
  beforeName := .none
  spelling := Utf8.ofString name
  afterName := .none

/-- Texts with commas between them. -/
def commaSeparated (texts : List Bytes) : Bytes :=
  List.intercalate [comma] texts

/-- The text of a list of items; where there is none, blanks may stand between the brackets. -/
def listText (gap : Blanks) (items : List Item) : Bytes :=
  openSquare :: (gap.bytes ++ (commaSeparated (items.map Item.bytes) ++ [closeSquare]))

/-- The text of an object. -/
def objectText (gap : Blanks) (members : List Member) : Bytes :=
  openCurly :: (gap.bytes ++ (commaSeparated (members.map Member.bytes) ++ [closeCurly]))

/-- The values of JSON. -/
inductive IsValue : Bytes → Prop
  | null :
      IsValue [0x6E, 0x75, 0x6C, 0x6C]
  | yes :
      IsValue [0x74, 0x72, 0x75, 0x65]
  | no :
      IsValue [0x66, 0x61, 0x6C, 0x73, 0x65]
  | number {bytes : Bytes} (isNumber : IsNumber bytes) :
      IsValue bytes
  | text {body : Bytes} (isBody : IsBody body) :
      IsValue (quote :: (body ++ [quote]))
  | list (gap : Blanks) (items : List Item) (each : ∀ item ∈ items, IsValue item.value) :
      IsValue (listText gap items)
  | object (gap : Blanks) (members : List Member)
      (names : ∀ member ∈ members, IsBody member.spelling)
      (each : ∀ member ∈ members, IsValue member.value) :
      IsValue (objectText gap members)

/-! ## Texts are read and skipped -/

/-- An escape of one letter stands for the bytes of its character. -/
theorem letterEscape?_of_known : ∀ pair ∈ shortEscapes,
    (letterEscape? pair.1).map (fun byte => [byte]) = some (Utf8.encodeChar pair.2) := by
  decide

theorem exists_letterEscape? {letter : UInt8} {character : Char}
    (known : (letter, character) ∈ shortEscapes) :
    ∃ byte, letterEscape? letter = some byte ∧ Utf8.encodeChar character = [byte] := by
  rcases Option.map_eq_some_iff.mp (letterEscape?_of_known _ known) with ⟨byte, stands, same⟩
  exact ⟨byte, stands, same.symm⟩

theorem letterEscape?_codeLetter : letterEscape? codeLetter = none := by
  decide

theorem readCode_of_digits {first second third fourth : UInt8} {code : Nat}
    (digits : hexCode? first second third fourth = some code) (rest : Bytes) :
    readCode (first :: second :: third :: fourth :: rest) = .ok (code, rest) := by
  simp [readCode, digits]

theorem anyEscape_run_letter {letter byte : UInt8} (stands : letterEscape? letter = some byte)
    (rest : Bytes) : anyEscape.run (letter :: rest) = .ok ([byte], rest) := by
  simp [anyEscape, readEscape, stands]

theorem anyEscape_run_code {first second third fourth : UInt8} {code : Nat}
    (digits : hexCode? first second third fourth = some code) (rest : Bytes) :
    anyEscape.run (codeLetter :: first :: second :: third :: fourth :: rest) = .ok ([], rest) := by
  simp [anyEscape, readEscape, letterEscape?_codeLetter, skipCodeEscape, readCode_of_digits digits]

/-- A text that is skipped ends at its first quote that no backslash precedes. -/
theorem readContent_of_isBody {body : Bytes} (isBody : IsBody body) (rest : Bytes) :
    ∃ content, readContent anyEscape (body ++ quote :: rest) = .ok (content, rest) := by
  induction isBody with
  | nil =>
      exact ⟨[], readContent_quote anyEscape rest⟩
  | plain plain later hypothesis =>
      rcases hypothesis with ⟨content, reads⟩
      exact ⟨_, readContent_plain plain reads⟩
  | letter known later hypothesis =>
      rcases hypothesis with ⟨content, reads⟩
      rcases List.mem_map.mp known with ⟨⟨letter, character⟩, member, rfl⟩
      rcases exists_letterEscape? member with ⟨byte, stands, -⟩
      exact ⟨_, readContent_backslash (anyEscape_run_letter stands _) reads⟩
  | code digits later hypothesis =>
      rcases hypothesis with ⟨content, reads⟩
      exact ⟨_, readContent_backslash (anyEscape_run_code digits _) reads⟩

theorem skipContent_of_isBody {body : Bytes} (isBody : IsBody body) (rest : Bytes) :
    skipContent (body ++ quote :: rest) = .ok rest := by
  rcases readContent_of_isBody isBody rest with ⟨content, reads⟩
  rw [skipContent, reads]

/-- An escape by number stands for the character of the number. -/
theorem escape_run_code {first second third fourth : UInt8} {character : Char}
    (digits : hexCode? first second third fourth = some character.toNat) (rest : Bytes) :
    escape.run (codeLetter :: first :: second :: third :: fourth :: rest) =
      .ok (Utf8.encodeChar character, rest) := by
  have range := Utf8.toNat_range character
  have noLow : isLowSurrogate character.toNat = false := by
    simp only [isLowSurrogate, Bool.and_eq_false_iff, decide_eq_false_iff_not]
    omega
  have noHigh : isHighSurrogate character.toNat = false := by
    simp only [isHighSurrogate, Bool.and_eq_false_iff, decide_eq_false_iff_not]
    omega
  simp [escape, readEscape, letterEscape?_codeLetter, readCodeEscape, readCode_of_digits digits,
    noLow, noHigh, Char.ofNat_toNat]

theorem ofSurrogates_of_large {character : Char} (large : 0x10000 ≤ character.toNat) :
    ofSurrogates (highSurrogate character) (lowSurrogate character) = character := by
  have number : 0x10000 + (highSurrogate character - 0xD800) * 0x400 +
      (lowSurrogate character - 0xDC00) = character.toNat := by
    simp only [highSurrogate, lowSurrogate]
    omega
  rw [ofSurrogates, number, Char.ofNat_toNat]

theorem highSurrogate_range {character : Char} (large : 0x10000 ≤ character.toNat) :
    0xD800 ≤ highSurrogate character ∧ highSurrogate character < 0xDC00 := by
  have range := Utf8.toNat_range character
  rw [highSurrogate]
  omega

theorem lowSurrogate_range (character : Char) :
    0xDC00 ≤ lowSurrogate character ∧ lowSurrogate character < 0xE000 := by
  rw [lowSurrogate]
  omega

/-- Two escapes by number stand for the character of their pair of surrogates. -/
theorem escape_run_pair {first second third fourth fifth sixth seventh eighth : UInt8}
    {character : Char} (large : 0x10000 ≤ character.toNat)
    (high : hexCode? first second third fourth = some (highSurrogate character))
    (low : hexCode? fifth sixth seventh eighth = some (lowSurrogate character)) (rest : Bytes) :
    escape.run (codeLetter :: first :: second :: third :: fourth :: backslash :: codeLetter ::
        fifth :: sixth :: seventh :: eighth :: rest) =
      .ok (Utf8.encodeChar character, rest) := by
  rcases highSurrogate_range large with ⟨highLeast, highGreatest⟩
  rcases lowSurrogate_range character with ⟨lowLeast, lowGreatest⟩
  have noLow : isLowSurrogate (highSurrogate character) = false := by
    simp [isLowSurrogate, Nat.not_le_of_lt highGreatest]
  have isHigh : isHighSurrogate (highSurrogate character) = true := by
    simp [isHighSurrogate, highLeast, highGreatest]
  have isLow : isLowSurrogate (lowSurrogate character) = true := by
    simp [isLowSurrogate, lowLeast, lowGreatest]
  simp [escape, readEscape, letterEscape?_codeLetter, readCodeEscape, readCode_of_digits high,
    noLow, isHigh, readLowSurrogate, readPairMark, readCode_of_digits low, isLow,
    ofSurrogates_of_large large]

/-- The bytes of a spelling are read as those of the characters that it spells. -/
theorem readContent_of_spells {bytes : Bytes} {characters : List Char}
    (spells : Spells bytes characters) (rest : Bytes) :
    readContent escape (bytes ++ quote :: rest) = .ok (Utf8.encode characters, rest) := by
  induction spells with
  | nil =>
      exact readContent_quote escape rest
  | @plain character bytes others noQuote noBackslash noControl later hypothesis =>
      have plain : ∀ byte ∈ Utf8.encodeChar character, IsPlain byte :=
        isPlain_of_mem_encodeChar (fun same => noQuote (Char.ext (UInt32.toNat_inj.mp same)))
          (fun same => noBackslash (Char.ext (UInt32.toNat_inj.mp same)))
          (Nat.not_lt_of_le noControl)
      rw [List.append_assoc, Utf8.encode_cons]
      exact readContent_plain_append plain hypothesis
  | letter known later hypothesis =>
      rcases exists_letterEscape? known with ⟨byte, stands, same⟩
      rw [Utf8.encode_cons, same]
      exact readContent_backslash (escape_run_letter stands _) hypothesis
  | code digits later hypothesis =>
      rw [Utf8.encode_cons]
      exact readContent_backslash (escape_run_code digits _) hypothesis
  | pair large high low later hypothesis =>
      rw [Utf8.encode_cons]
      exact readContent_backslash (escape_run_pair large high low _) hypothesis

/-- Characters that need no escape stand for themselves. -/
theorem spells_encode {characters : List Char}
    (plain : characters.all fun character =>
      character ≠ '"' ∧ character ≠ '\\' ∧ 0x20 ≤ character.toNat) :
    Spells (Utf8.encode characters) characters := by
  induction characters with
  | nil =>
      exact .nil
  | cons character others hypothesis =>
      rw [List.all_cons, Bool.and_eq_true, decide_eq_true_eq] at plain
      rcases plain with ⟨⟨noQuote, noBackslash, noControl⟩, later⟩
      rw [Utf8.encode_cons]
      exact .plain noQuote noBackslash noControl (hypothesis later)

/-- Every spelling of a text is read as the text, up to the closing quote. -/
theorem content_run_of_spells {bytes : Bytes} {text : String} (spells : Spells bytes text.toList)
    (rest : Bytes) : content.run (bytes ++ quote :: rest) = .ok (text, rest) := by
  have decodes : Utf8.toString? (Utf8.encode text.toList) = some text :=
    Utf8.toString?_ofString text
  simp [content, readContent_of_spells spells rest, decodes]

end BundlePacker.Json
