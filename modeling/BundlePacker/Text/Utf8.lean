/-!
# UTF-8

Texts are characters, files and paths are bytes, and this module is the only bridge between the two.
Decoding reads one byte at a time and keeps the character that is under way, so that an ill-formed
part ends exactly where no well-formed character can continue it.  The strict decoder refuses such a
part; the lossy one shows each of them as one replacement character.
-/

namespace BundlePacker

/-- A finite sequence of bytes, in order. -/
abbrev Bytes :=
  List UInt8

namespace Utf8

/-- The bytes of one character. -/
def encodeChar (character : Char) : Bytes :=
  let code := character.toNat
  if code < 0x80 then
    [UInt8.ofNat code]
  else if code < 0x800 then
    [UInt8.ofNat (0xC0 + code / 64), UInt8.ofNat (0x80 + code % 64)]
  else if code < 0x10000 then
    [UInt8.ofNat (0xE0 + code / 4096), UInt8.ofNat (0x80 + code / 64 % 64),
      UInt8.ofNat (0x80 + code % 64)]
  else
    [UInt8.ofNat (0xF0 + code / 262144), UInt8.ofNat (0x80 + code / 4096 % 64),
      UInt8.ofNat (0x80 + code / 64 % 64), UInt8.ofNat (0x80 + code % 64)]

/-- The bytes of a list of characters, one character after the other. -/
def encode (characters : List Char) : Bytes :=
  characters.flatMap encodeChar

/-- A character whose first bytes have been read. -/
structure Unfinished where
  /-- The bits read so far. -/
  code : Nat
  /-- How many continuation bytes follow the next one. -/
  further : Nat
  /-- The smallest value that the next byte may have. -/
  least : Nat
  /-- The largest value that the next byte may have. -/
  greatest : Nat

/-- What a byte means where a character has to begin. -/
inductive Opening where
  /-- A character of one byte. -/
  | whole (character : Char)
  /-- The first byte of a longer character. -/
  | lead (unfinished : Unfinished)
  /-- A byte that begins no character. -/
  | stray

/--
Classify a first byte.  The bounds on the second byte keep out overlong forms, surrogates and codes
above the last plane.
-/
def Opening.ofByte (byte : UInt8) : Opening :=
  let value := byte.toNat
  if value < 0x80 then .whole (Char.ofNat value)
  else if value < 0xC2 then .stray
  else if value < 0xE0 then .lead ⟨value - 0xC0, 0, 0x80, 0xBF⟩
  else if value = 0xE0 then .lead ⟨value - 0xE0, 1, 0xA0, 0xBF⟩
  else if value = 0xED then .lead ⟨value - 0xE0, 1, 0x80, 0x9F⟩
  else if value < 0xF0 then .lead ⟨value - 0xE0, 1, 0x80, 0xBF⟩
  else if value = 0xF0 then .lead ⟨value - 0xF0, 2, 0x90, 0xBF⟩
  else if value < 0xF4 then .lead ⟨value - 0xF0, 2, 0x80, 0xBF⟩
  else if value = 0xF4 then .lead ⟨value - 0xF0, 2, 0x80, 0x8F⟩
  else .stray

/--
Decode from a point inside or between characters.  Each `none` in the result is one maximal
ill-formed part.
-/
def piecesFrom : Option Unfinished → Bytes → List (Option Char)
  | none, [] => []
  | some _, [] => [none]
  | none, byte :: rest =>
    match Opening.ofByte byte with
    | .whole character => some character :: piecesFrom none rest
    | .lead unfinished => piecesFrom (some unfinished) rest
    | .stray => none :: piecesFrom none rest
  | some unfinished, byte :: rest =>
    let value := byte.toNat
    if unfinished.least ≤ value ∧ value ≤ unfinished.greatest then
      let code := unfinished.code * 64 + (value - 0x80)
      match unfinished.further with
      | 0 => some (Char.ofNat code) :: piecesFrom none rest
      | further + 1 => piecesFrom (some ⟨code, further, 0x80, 0xBF⟩) rest
    else
      match Opening.ofByte byte with
      | .whole character => none :: some character :: piecesFrom none rest
      | .lead next => none :: piecesFrom (some next) rest
      | .stray => none :: none :: piecesFrom none rest

/-- The characters and ill-formed parts of a byte sequence, in order. -/
def pieces (bytes : Bytes) : List (Option Char) :=
  piecesFrom none bytes

/-- The characters of a list of pieces, when no piece is ill-formed. -/
def wellFormed? : List (Option Char) → Option (List Char)
  | [] => some []
  | none :: _ => none
  | some character :: rest => (wellFormed? rest).map (character :: ·)

/-- The characters that a byte sequence encodes, when it is well-formed. -/
def decode? (bytes : Bytes) : Option (List Char) :=
  wellFormed? (pieces bytes)

/-- The bytes of a text. -/
def ofString (text : String) : Bytes :=
  encode text.toList

/-- The text that a byte sequence encodes, when it is well-formed. -/
def toString? (bytes : Bytes) : Option String :=
  (decode? bytes).map String.ofList

/-- The text of a byte sequence, with a replacement character for each ill-formed part. -/
def lossy (bytes : Bytes) : String :=
  String.ofList ((pieces bytes).map fun piece => piece.getD '\uFFFD')

@[simp]
theorem encode_nil : encode [] = [] :=
  rfl

@[simp]
theorem encode_cons (character : Char) (rest : List Char) :
    encode (character :: rest) = encodeChar character ++ encode rest := by
  simp [encode]

@[simp]
theorem encode_append (first second : List Char) :
    encode (first ++ second) = encode first ++ encode second := by
  simp [encode]

end Utf8

end BundlePacker
