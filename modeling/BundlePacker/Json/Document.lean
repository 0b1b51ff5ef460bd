import BundlePacker.Text.Utf8

/-!
# JSON documents

The part of JSON that descriptors are written in: texts, lists and objects with their members in a
fixed order.  One printer serves every layout.  A layout says what stands between two items and
after a member's name, and nothing but blanks and line breaks may stand there, so that all layouts
of a document read the same.
-/

namespace BundlePacker.Json

/-- A JSON value without numbers, truth values and null. -/
inductive Document where
  | text (content : String)
  | list (items : List Document)
  | object (members : List (String × Document))

/-- Where a printer breaks lines, and what it writes after a member's name. -/
structure Layout where
  /-- What is written where a line may end, at a given depth of the next line. -/
  lineBreak : Nat → List Char
  /-- What separates a member's name from its value. -/
  colon : List Char

namespace Layout

/-- Every item on a line of its own, indented by four blanks for each open bracket. -/
def indented : Layout where
  lineBreak depth := '\n' :: List.replicate (4 * depth) ' '
  colon := [':', ' ']

/-- Everything on one line, with no blanks. -/
def compact : Layout where
  lineBreak _ := []
  colon := [':']

end Layout

/-- A digit below sixteen, in lower case. -/
def hexDigit (digit : Nat) : Char :=
  if digit < 10 then Char.ofNat (48 + digit) else Char.ofNat (87 + digit)

/--
A character as it is written between quotes.  Quotes, backslashes and control characters are
escaped, the common ones among the latter by a letter; everything else stands for itself.
-/
def escaped (character : Char) : List Char :=
  match character with
  | '"' => ['\\', '"']
  | '\\' => ['\\', '\\']
  | '\x08' => ['\\', 'b']
  | '\x0C' => ['\\', 'f']
  | '\n' => ['\\', 'n']
  | '\r' => ['\\', 'r']
  | '\t' => ['\\', 't']
  | _ =>
    if character.toNat < 0x20 then
      ['\\', 'u', '0', '0', hexDigit (character.toNat / 16), hexDigit (character.toNat % 16)]
    else
      [character]

/-- A text between quotes. -/
def quoted (content : String) : List Char :=
  '"' :: content.toList.flatMap escaped ++ ['"']

namespace Document

mutual

/-- The text of a document whose first line is at a given depth. -/
def write (layout : Layout) (depth : Nat) : Document → List Char
  | .text content => quoted content
  | .list [] => ['[', ']']
  | .list (item :: rest) =>
    '[' :: layout.lineBreak (depth + 1) ++ item.write layout (depth + 1) ++
      writeItems layout (depth + 1) rest ++ layout.lineBreak depth ++ [']']
  | .object [] => ['{', '}']
  | .object ((name, value) :: rest) =>
    '{' :: layout.lineBreak (depth + 1) ++ quoted name ++ layout.colon ++
      value.write layout (depth + 1) ++ writeMembers layout (depth + 1) rest ++
      layout.lineBreak depth ++ ['}']

/-- The text of the items after the first one of a list. -/
def writeItems (layout : Layout) (depth : Nat) : List Document → List Char
  | [] => []
  | item :: rest =>
    ',' :: layout.lineBreak depth ++ item.write layout depth ++ writeItems layout depth rest

/-- The text of the members after the first one of an object. -/
def writeMembers (layout : Layout) (depth : Nat) : List (String × Document) → List Char
  | [] => []
  | (name, value) :: rest =>
    ',' :: layout.lineBreak depth ++ quoted name ++ layout.colon ++ value.write layout depth ++
      writeMembers layout depth rest

end

/-- The whole text of a document. -/
def render (layout : Layout) (document : Document) : String :=
  String.ofList (document.write layout 0)

end Document

end BundlePacker.Json
