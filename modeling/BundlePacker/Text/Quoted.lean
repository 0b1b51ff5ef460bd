import BundlePacker.Text.Hidden

/-!
# Texts in messages

A text that is shown in a message stands between quotes and is written so that every character can
be told: quotes and backslashes are escaped, line breaks and tabs have a letter, and a character
that could not be seen is replaced by its code.
-/

namespace BundlePacker.Text

/-- A code in braces, with lower-case digits. -/
def codeEscape (code : Nat) : List Char :=
  ['\\', 'u', '\x7b'] ++ Nat.toDigits 16 code ++ ['\x7d']

/-- A character as it is shown in a message. -/
def shown (character : Char) : List Char :=
  match character with
  | '\x00' => ['\\', '0']
  | '\t' => ['\\', 't']
  | '\r' => ['\\', 'r']
  | '\n' => ['\\', 'n']
  | '"' => ['\\', '"']
  | '\\' => ['\\', '\\']
  | _ => if isHidden character then codeEscape character.toNat else [character]

/-- A text between quotes, as it is shown in a message. -/
def quoted (content : String) : String :=
  String.ofList ('"' :: content.toList.flatMap shown ++ ['"'])

end BundlePacker.Text
