import BundlePacker.Json.Escape.Lemmas
import BundlePacker.Json.Reader

/-!
# Open brackets

A scan reads a text from left to right and keeps count of the brackets that have been opened and
not closed.  Brackets between quotes do not count, and a quote behind a backslash does not end a
text.  A scan knows nothing of layouts or documents.  The main statement is that a text between
quotes leaves every count as it is, whatever its characters are.
-/

namespace BundlePacker.Json

/-- Where a scan is. -/
inductive Zone where
  | outside
  /-- Between quotes. -/
  | inside
  /-- Between quotes, right behind a backslash. -/
  | escaping
deriving DecidableEq

/-- How far a scan has come. -/
structure Scan where
  /-- How many more brackets have been opened than closed. -/
  depth : Int
  zone : Zone
deriving DecidableEq

/-- Whether a byte opens a list or an object. -/
def IsOpening (byte : UInt8) : Prop :=
  byte = openCurly ∨ byte = openSquare

/-- Whether a byte closes a list or an object. -/
def IsClosing (byte : UInt8) : Prop :=
  byte = closeCurly ∨ byte = closeSquare

instance (byte : UInt8) : Decidable (IsOpening byte) :=
  inferInstanceAs (Decidable (_ ∨ _))

instance (byte : UInt8) : Decidable (IsClosing byte) :=
  inferInstanceAs (Decidable (_ ∨ _))

namespace Scan

/-- Before the first byte. -/
def start : Scan :=
  ⟨0, .outside⟩

/-- A scan after one more byte. -/
def step (scan : Scan) (byte : UInt8) : Scan :=
  match scan.zone with
  | .outside =>
    if byte = quote then { scan with zone := .inside }
    else if IsOpening byte then { scan with depth := scan.depth + 1 }
    else if IsClosing byte then { scan with depth := scan.depth - 1 }
    else scan
  | .inside =>
    if byte = quote then { scan with zone := .outside }
    else if byte = backslash then { scan with zone := .escaping }
    else scan
  | .escaping => { scan with zone := .inside }

/-- A scan after some more bytes. -/
def after (scan : Scan) (bytes : Bytes) : Scan :=
  bytes.foldl step scan

@[simp]
theorem after_nil (scan : Scan) : scan.after [] = scan :=
  rfl

@[simp]
theorem after_cons (scan : Scan) (byte : UInt8) (rest : Bytes) :
    scan.after (byte :: rest) = (scan.step byte).after rest :=
  rfl

@[simp]
theorem after_append (scan : Scan) (first second : Bytes) :
    scan.after (first ++ second) = (scan.after first).after second :=
  List.foldl_append

/-- A byte that is neither a quote nor a bracket counts for nothing. -/
theorem step_outside {depth : Int} {byte : UInt8} (noQuote : byte ≠ quote)
    (noOpening : ¬ IsOpening byte) (noClosing : ¬ IsClosing byte) :
    step ⟨depth, .outside⟩ byte = ⟨depth, .outside⟩ := by
  simp [step, noQuote, noOpening, noClosing]

theorem step_opens {depth : Int} {byte : UInt8} (opening : IsOpening byte) :
    step ⟨depth, .outside⟩ byte = ⟨depth + 1, .outside⟩ := by
  have noQuote : byte ≠ quote := by
    rcases opening with rfl | rfl <;> decide
  simp [step, noQuote, opening]

theorem step_closes {depth : Int} {byte : UInt8} (closing : IsClosing byte) :
    step ⟨depth, .outside⟩ byte = ⟨depth - 1, .outside⟩ := by
  have noQuote : byte ≠ quote := by
    rcases closing with rfl | rfl <;> decide
  have noOpening : ¬ IsOpening byte := by
    rcases closing with rfl | rfl <;> decide
  simp [step, noQuote, noOpening, closing]

theorem after_replicate_space (depth : Int) (count : Nat) :
    after ⟨depth, .outside⟩ (List.replicate count 0x20) = ⟨depth, .outside⟩ := by
  induction count with
  | zero =>
      rfl
  | succ count hypothesis =>
      rw [List.replicate_succ, after_cons, step_outside (by decide) (by decide) (by decide),
        hypothesis]

/-! ## Between quotes -/

theorem after_plain (depth : Int) {bytes : Bytes} (plain : ∀ byte ∈ bytes, IsPlain byte) :
    after ⟨depth, .inside⟩ bytes = ⟨depth, .inside⟩ := by
  induction bytes with
  | nil =>
      rfl
  | cons byte rest hypothesis =>
      rcases plain byte (List.mem_cons_self ..) with ⟨noQuote, noBackslash, -⟩
      have same : step ⟨depth, .inside⟩ byte = ⟨depth, .inside⟩ := by
        simp [step, noQuote, noBackslash]
      rw [after_cons, same]
      exact hypothesis fun other member => plain other (List.mem_cons_of_mem _ member)

/-- A backslash takes the meaning from the byte behind it, and from no other. -/
theorem after_backslash (depth : Int) (letter : UInt8) {rest : Bytes}
    (plain : ∀ byte ∈ rest, IsPlain byte) :
    after ⟨depth, .inside⟩ (backslash :: letter :: rest) = ⟨depth, .inside⟩ := by
  have escaping : step ⟨depth, .inside⟩ backslash = ⟨depth, .escaping⟩ := rfl
  have back : step ⟨depth, .escaping⟩ letter = ⟨depth, .inside⟩ := rfl
  rw [after_cons, after_cons, escaping, back, after_plain depth plain]

end Scan

/-- A digit of a character that is written by its code is an ordinary byte. -/
theorem isPlain_hexDigits : ∀ code : Fin 32,
    ∀ byte ∈ [0x30, 0x30, UInt8.ofNat (hexDigit (code / 16)).toNat,
      UInt8.ofNat (hexDigit (code % 16)).toNat], IsPlain byte := by
  unfold IsPlain
  simp only [List.forall_mem_cons, List.not_mem_nil, false_imp_iff, implies_true, and_true]
  decide

/--
A character is written between quotes either by itself or by a backslash, the byte that it gives a
meaning to, and ordinary bytes.
-/
theorem encode_escaped_cases (character : Char) :
    (∀ byte ∈ Utf8.encode (escaped character), IsPlain byte) ∨
      ∃ letter rest, Utf8.encode (escaped character) = backslash :: letter :: rest ∧
        ¬ letter < 0x20 ∧ ∀ byte ∈ rest, IsPlain byte := by
  have short : ∀ letter : UInt8, ¬ letter < 0x20 →
      ∀ bytes, bytes = [backslash, letter] →
      ∃ found rest, bytes = backslash :: found :: rest ∧ ¬ found < 0x20 ∧
        ∀ byte ∈ rest, IsPlain byte := by
    intro letter shown bytes shape
    exact ⟨letter, [], shape, shown, fun _ member => by cases member⟩
  unfold escaped
  split
  · exact .inr (short quote (by decide) _ rfl)
  · exact .inr (short backslash (by decide) _ rfl)
  · exact .inr (short 0x62 (by decide) _ rfl)
  · exact .inr (short 0x66 (by decide) _ rfl)
  · exact .inr (short 0x6E (by decide) _ rfl)
  · exact .inr (short 0x72 (by decide) _ rfl)
  · exact .inr (short 0x74 (by decide) _ rfl)
  · next noQuote noBackslash _ _ _ _ _ =>
    split
    · next control =>
      right
      exact ⟨codeLetter, _, encode_hexDigits ⟨character.toNat, control⟩, by decide,
        isPlain_hexDigits ⟨character.toNat, control⟩⟩
    · next noControl =>
      left
      rw [Utf8.encode_cons, Utf8.encode_nil, List.append_nil]
      exact isPlain_of_mem_encodeChar (fun same => noQuote (Char.ext (UInt32.toNat_inj.mp same)))
        (fun same => noBackslash (Char.ext (UInt32.toNat_inj.mp same))) noControl

namespace Scan

theorem after_escaped (depth : Int) (character : Char) :
    after ⟨depth, .inside⟩ (Utf8.encode (escaped character)) = ⟨depth, .inside⟩ := by
  rcases encode_escaped_cases character with plain | ⟨letter, rest, shape, -, plain⟩
  · exact after_plain depth plain
  · rw [shape]
    exact after_backslash depth letter plain

/-- A text between quotes opens and closes nothing, whatever it contains. -/
theorem after_quoted (depth : Int) (content : String) :
    after ⟨depth, .outside⟩ (Utf8.encode (quoted content)) = ⟨depth, .outside⟩ := by
  have inner : ∀ characters : List Char,
      after ⟨depth, .inside⟩ (Utf8.encode (characters.flatMap escaped)) = ⟨depth, .inside⟩ := by
    intro characters
    induction characters with
    | nil =>
        rfl
    | cons character others hypothesis =>
        rw [List.flatMap_cons, Utf8.encode_append, after_append, after_escaped, hypothesis]
  have opening : Utf8.encodeChar '"' = [quote] := rfl
  have closing : Utf8.encode ['"'] = [quote] := rfl
  rw [quoted, List.cons_append, Utf8.encode_cons, Utf8.encode_append, opening, closing,
    after_append, after_append]
  have between : after ⟨depth, .outside⟩ [quote] = ⟨depth, .inside⟩ := rfl
  rw [between, inner]
  rfl

end Scan

/-- No byte of a text between quotes is a control character. -/
theorem noControl_quoted (content : String) :
    ∀ byte ∈ Utf8.encode (quoted content), ¬ byte < 0x20 := by
  have shown : ∀ character, ∀ byte ∈ Utf8.encode (escaped character), ¬ byte < 0x20 := by
    intro character byte member
    rcases encode_escaped_cases character with plain | ⟨letter, rest, shape, visible, plain⟩
    · exact (plain byte member).2.2
    · rw [shape, List.mem_cons, List.mem_cons] at member
      rcases member with rfl | rfl | later
      · decide
      · exact visible
      · exact (plain byte later).2.2
  have inner : ∀ characters : List Char,
      ∀ byte ∈ Utf8.encode (characters.flatMap escaped), ¬ byte < 0x20 := by
    intro characters byte member
    induction characters with
    | nil =>
        cases member
    | cons character others hypothesis =>
        rw [List.flatMap_cons, Utf8.encode_append] at member
        rcases List.mem_append.mp member with first | later
        · exact shown character byte first
        · exact hypothesis later
  intro byte member
  rw [quoted, List.cons_append, Utf8.encode_cons, Utf8.encode_append] at member
  rcases List.mem_append.mp member with opening | rest
  · rw [List.mem_singleton.mp opening]
    decide
  rcases List.mem_append.mp rest with middle | closing
  · exact inner content.toList byte middle
  · rw [List.mem_singleton.mp closing]
    decide

end BundlePacker.Json
