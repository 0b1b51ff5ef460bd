import BundlePacker.Decimal.Shortest
import BundlePacker.Text.Quoted

/-!
# Why a JSON text can not be read

Reading stops at the first fault.  Every fault belongs to one of three categories: the text ends too
early, it is no JSON, or it is JSON of another shape than the one asked for.
-/

namespace BundlePacker.Json

/-- The innermost thing that a text left unfinished. -/
inductive Unfinished where
  | value
  | list
  | object
  | text
deriving DecidableEq

/-- The word for something unfinished. -/
def Unfinished.words : Unfinished → String
  | value => "a value"
  | list => "a list"
  | object => "an object"
  | text => "a string"

/-- A value of another shape than the expected one, as far as it was read. -/
inductive Found where
  | null
  | boolean (value : Bool)
  | integer (value : Int)
  /-- A number that is kept in double precision, by its sign and its magnitude. -/
  | floating (negative : Bool) (magnitude : Rat)
  | text (content : String)
  | list
  | object
deriving DecidableEq

/-- The words for what was found. -/
def Found.words : Found → String
  | null => "null"
  | boolean value => "boolean `" ++ (if value then "true" else "false") ++ "`"
  | integer value => "integer `" ++ toString value ++ "`"
  | floating negative magnitude =>
    "floating point `" ++ Decimal.shortestText negative magnitude ++ "`"
  | text content => "string " ++ Text.quoted content
  | list => "sequence"
  | object => "map"

/-- What a reader expects at some point. -/
inductive Expected where
  | record (title : String)
  | map
  | list
  | text
  | unit
deriving DecidableEq

/-- The words for what is expected. -/
def Expected.words : Expected → String
  | record title => "struct " ++ title
  | map => "a map"
  | list => "a sequence"
  | text => "a string"
  | unit => "unit"

/-- Why a JSON text can not be read. -/
inductive ReadError where
  /-- The text ends inside something. -/
  | unfinished (inside : Unfinished)
  /-- A value has another shape than the expected one. -/
  | mismatch (found : Found) (expected : Expected)
  /-- A list that stands for a record has too few elements. -/
  | tooShort (count : Nat) (title : String) (size : Nat)
  | missingField (name : String)
  | duplicateField (name : String)
  /-- A name is none of those that are known. -/
  | unknownName (name : String) (known : List String)
  | trailingCharacters
  | trailingComma
  | valueExpected
  | wordExpected
  | colonExpected
  | listEndExpected
  | objectEndExpected
  | keyExpected
  | controlCharacter
  | badEscape
  | loneSurrogate
  | escapeCutShort
  | badNumber
  | numberOutOfRange
  | badEncoding
deriving DecidableEq

/-- The kinds of read errors. -/
inductive Category where
  /-- The text is no JSON. -/
  | syntactic
  /-- The text has another shape than the one asked for. -/
  | data
  /-- The text ends too early. -/
  | unfinished
deriving DecidableEq

namespace ReadError

/-- The category of an error. -/
def category : ReadError → Category
  | unfinished _ => .unfinished
  | mismatch _ _ | tooShort _ _ _ | missingField _ | duplicateField _ | unknownName _ _ => .data
  | _ => .syntactic

/-- Known names as they are offered in messages. -/
def offer (known : List String) : String :=
  String.intercalate " or " (known.map fun name => "`" ++ name ++ "`")

/-- The text of an error. -/
def message : ReadError → String
  | unfinished inside => "EOF while parsing " ++ inside.words
  | mismatch found expected => "invalid type: " ++ found.words ++ ", expected " ++ expected.words
  | tooShort count title size =>
    "invalid length " ++ toString count ++ ", expected struct " ++ title ++ " with " ++
      toString size ++ " elements"
  | missingField name => "missing field `" ++ name ++ "`"
  | duplicateField name => "duplicate field `" ++ name ++ "`"
  | unknownName name known => "unknown variant `" ++ name ++ "`, expected " ++ offer known
  | trailingCharacters => "trailing characters"
  | trailingComma => "trailing comma"
  | valueExpected => "expected value"
  | wordExpected => "expected ident"
  | colonExpected => "expected `:`"
  | listEndExpected => "expected `,` or `]`"
  | objectEndExpected => "expected `,` or `\x7d`"
  | keyExpected => "key must be a string"
  | controlCharacter => "control character (\\u0000-\\u001F) found while parsing a string"
  | badEscape => "invalid escape"
  | loneSurrogate => "lone leading surrogate in hex escape"
  | escapeCutShort => "unexpected end of hex escape"
  | badNumber => "invalid number"
  | numberOutOfRange => "number out of range"
  | badEncoding => "invalid unicode code point"

end ReadError

end BundlePacker.Json
