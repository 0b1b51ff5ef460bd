import BundlePacker.Text.Utf8
import BundlePacker.Json.ReadError

/-!
# Readers

A reader takes one value off the front of a byte sequence and gives back what follows it.  It never
gives back as much as it was given, which is what lets lists and objects be read by repetition: the
fact is part of the type, and every repetition ends because the rest gets shorter.
-/

namespace BundlePacker.Json

/-- The bytes that mean something between values. -/
abbrev openSquare : UInt8 := 0x5B

abbrev closeSquare : UInt8 := 0x5D

abbrev openCurly : UInt8 := 0x7B

abbrev closeCurly : UInt8 := 0x7D

abbrev comma : UInt8 := 0x2C

abbrev colon : UInt8 := 0x3A

abbrev quote : UInt8 := 0x22

abbrev backslash : UInt8 := 0x5C

/-- What reading a value gives: the value and the rest of the text, or an error. -/
abbrev Outcome (α : Type) :=
  Except ReadError (α × Bytes)

/-- A way to take a value off the front of a text. -/
structure Reader (α : Type) where
  /-- Take a value off the front of a text. -/
  run : Bytes → Outcome α
  /-- What follows a value is shorter than the whole. -/
  shrinks : ∀ {input : Bytes} {value : α} {rest : Bytes},
    run input = .ok (value, rest) → rest.length < input.length

/-- Whether a byte may stand between any two parts of a text without a meaning. -/
def isSpace (byte : UInt8) : Bool :=
  byte = 0x20 || byte = 0x09 || byte = 0x0A || byte = 0x0D

/-- A text without the blanks and line breaks at its front. -/
def skipSpace (input : Bytes) : Bytes :=
  input.dropWhile isSpace

/-- Take the letters of a word off the front of a text. -/
def word : Bytes → Bytes → Except ReadError Bytes
  | [], input => .ok input
  | _ :: _, [] => .error (.unfinished .value)
  | letter :: letters, byte :: rest =>
    if byte = letter then word letters rest else .error .wordExpected

theorem length_dropWhile_le {α : Type} (keep : α → Bool) (input : List α) :
    (input.dropWhile keep).length ≤ input.length :=
  (List.dropWhile_suffix keep).length_le

theorem length_skipSpace_le (input : Bytes) : (skipSpace input).length ≤ input.length :=
  length_dropWhile_le isSpace input

/-- A byte after the blanks of a text is one of the text's bytes. -/
theorem length_lt_of_skipSpace {input rest : Bytes} {byte : UInt8}
    (shown : skipSpace input = byte :: rest) : rest.length < input.length := by
  have bound := length_skipSpace_le input
  rw [shown, List.length_cons] at bound
  omega

theorem length_word_le {letters input rest : Bytes} (success : word letters input = .ok rest) :
    rest.length ≤ input.length := by
  induction letters generalizing input with
  | nil =>
    cases success
    exact Nat.le_refl _
  | cons letter letters hypothesis =>
    cases input with
    | nil => cases success
    | cons byte input =>
      simp only [word] at success
      split at success
      · exact Nat.le_succ_of_le (hypothesis success)
      · cases success

namespace Reader

/-- Read a value and pass it through a function. -/
def map {α β : Type} (transform : α → β) (reader : Reader α) : Reader β where
  run input :=
    match reader.run input with
    | .error fault => .error fault
    | .ok (value, rest) => .ok (transform value, rest)
  shrinks := by
    intro input value rest success
    split at success
    · cases success
    · next found => cases success; exact reader.shrinks found

/-- Read a text that consists of one value and nothing else but blanks. -/
def readAll {α : Type} (reader : Reader α) (input : Bytes) : Except ReadError α :=
  match reader.run input with
  | .error fault => .error fault
  | .ok (value, rest) =>
    if skipSpace rest = [] then .ok value else .error .trailingCharacters

end Reader

end BundlePacker.Json
