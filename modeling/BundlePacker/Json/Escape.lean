import BundlePacker.Json.Reader

/-!
# Texts between quotes

A text is read to its closing quote.  What an escape stands for depends on whether the text is
wanted: then surrogates have to come in pairs and the bytes have to be UTF-8, whereas a text that is
skipped only has to end.
-/

namespace BundlePacker.Json

/-- The byte that an escape of one letter stands for. -/
def letterEscape? (letter : UInt8) : Option UInt8 :=
  if letter = quote then some quote
  else if letter = backslash then some backslash
  else if letter = 0x2F then some 0x2F
  else if letter = 0x62 then some 0x08
  else if letter = 0x66 then some 0x0C
  else if letter = 0x6E then some 0x0A
  else if letter = 0x72 then some 0x0D
  else if letter = 0x74 then some 0x09
  else none

/-- The letter that introduces an escape of four digits. -/
abbrev codeLetter : UInt8 := 0x75

/-- The value of a hexadecimal digit. -/
def hexValue? (digit : UInt8) : Option Nat :=
  if 0x30 ≤ digit ∧ digit ≤ 0x39 then some (digit.toNat - 0x30)
  else if 0x41 ≤ digit ∧ digit ≤ 0x46 then some (digit.toNat - 0x37)
  else if 0x61 ≤ digit ∧ digit ≤ 0x66 then some (digit.toNat - 0x57)
  else none

/-- The number that four hexadecimal digits stand for. -/
def hexCode? (first second third fourth : UInt8) : Option Nat := do
  let high ← hexValue? first
  let upper ← hexValue? second
  let lower ← hexValue? third
  let low ← hexValue? fourth
  some (high * 4096 + upper * 256 + lower * 16 + low)

/-- Read the four digits of an escape. -/
def readCode : Bytes → Outcome Nat
  | first :: second :: third :: fourth :: rest =>
    match hexCode? first second third fourth with
    | some code => .ok (code, rest)
    | none => .error .badEscape
  | _ => .error (.unfinished .text)

/-- The first half of a pair of surrogates. -/
def isHighSurrogate (code : Nat) : Bool :=
  0xD800 ≤ code && code < 0xDC00

/-- The second half of a pair of surrogates. -/
def isLowSurrogate (code : Nat) : Bool :=
  0xDC00 ≤ code && code < 0xE000

/-- The character that a pair of surrogates stands for. -/
def ofSurrogates (high low : Nat) : Char :=
  Char.ofNat (0x10000 + (high - 0xD800) * 0x400 + (low - 0xDC00))

/-- Read what introduces the second half of a pair of surrogates. -/
def readPairMark : Bytes → Except ReadError Bytes
  | [] => .error (.unfinished .text)
  | [first] =>
    if first = backslash then .error (.unfinished .text) else .error .escapeCutShort
  | first :: second :: rest =>
    if first = backslash ∧ second = codeLetter then .ok rest else .error .escapeCutShort

/-- Read the second half of a pair of surrogates, with the escape that introduces it. -/
def readLowSurrogate (high : Nat) (input : Bytes) : Outcome Bytes :=
  match readPairMark input with
  | .error fault => .error fault
  | .ok digits =>
    match readCode digits with
    | .error fault => .error fault
    | .ok (low, rest) =>
      if isLowSurrogate low then .ok (Utf8.encodeChar (ofSurrogates high low), rest)
      else .error .loneSurrogate

/-- Read the digits of an escape, and those of its second half where it has one. -/
def readCodeEscape (input : Bytes) : Outcome Bytes :=
  match readCode input with
  | .error fault => .error fault
  | .ok (code, rest) =>
    if isLowSurrogate code then .error .loneSurrogate
    else if isHighSurrogate code then readLowSurrogate code rest
    else .ok (Utf8.encodeChar (Char.ofNat code), rest)

/-- Skip the digits of an escape; any four will do. -/
def skipCodeEscape (input : Bytes) : Outcome Bytes :=
  match readCode input with
  | .error fault => .error fault
  | .ok (_, rest) => .ok ([], rest)

/-- Read an escape, with a given treatment of escapes by number. -/
def readEscape (byCode : Bytes → Outcome Bytes) : Bytes → Outcome Bytes
  | [] => .error (.unfinished .text)
  | letter :: rest =>
    match letterEscape? letter with
    | some byte => .ok ([byte], rest)
    | none => if letter = codeLetter then byCode rest else .error .badEscape

theorem length_readCode_le {input rest : Bytes} {code : Nat}
    (success : readCode input = .ok (code, rest)) : rest.length ≤ input.length := by
  unfold readCode at success
  split at success
  · split at success
    · cases success
      simp only [List.length_cons]
      omega
    · cases success
  · cases success

theorem length_readPairMark_le {input rest : Bytes} (success : readPairMark input = .ok rest) :
    rest.length ≤ input.length := by
  unfold readPairMark at success
  split at success
  · cases success
  · split at success <;> cases success
  · split at success
    · cases success
      simp only [List.length_cons]
      omega
    · cases success

theorem length_readLowSurrogate_le {high : Nat} {input value rest : Bytes}
    (success : readLowSurrogate high input = .ok (value, rest)) :
    rest.length ≤ input.length := by
  unfold readLowSurrogate at success
  split at success
  · cases success
  · next marked =>
    have mark := length_readPairMark_le marked
    split at success
    · cases success
    · next found =>
      have code := length_readCode_le found
      split at success
      · injection success with same
        injection same with _ same
        subst same
        exact Nat.le_trans code mark
      · cases success

theorem length_readCodeEscape_le {input value rest : Bytes}
    (success : readCodeEscape input = .ok (value, rest)) : rest.length ≤ input.length := by
  unfold readCodeEscape at success
  split at success
  · cases success
  · next found =>
    have bound := length_readCode_le found
    split at success
    · cases success
    · split at success
      · exact Nat.le_trans (length_readLowSurrogate_le success) bound
      · cases success
        exact bound

theorem length_skipCodeEscape_le {input value rest : Bytes}
    (success : skipCodeEscape input = .ok (value, rest)) : rest.length ≤ input.length := by
  unfold skipCodeEscape at success
  split at success
  · cases success
  · next found =>
    cases success
    exact length_readCode_le found

theorem length_readEscape_lt {byCode : Bytes → Outcome Bytes}
    (bounded : ∀ {input value rest : Bytes},
      byCode input = .ok (value, rest) → rest.length ≤ input.length)
    {input value rest : Bytes} (success : readEscape byCode input = .ok (value, rest)) :
    rest.length < input.length := by
  unfold readEscape at success
  split at success
  · cases success
  · split at success
    · cases success
      simp
    · split at success
      · exact Nat.lt_succ_of_le (bounded success)
      · cases success

/-- The bytes that an escape stands for, where they are wanted. -/
def escape : Reader Bytes where
  run := readEscape readCodeEscape
  shrinks := length_readEscape_lt length_readCodeEscape_le

/-- An escape whose meaning is not wanted. -/
def anyEscape : Reader Bytes where
  run := readEscape skipCodeEscape
  shrinks := length_readEscape_lt length_skipCodeEscape_le

/-- Read the bytes of a text up to its closing quote. -/
def readContent (escape : Reader Bytes) (input : Bytes) : Outcome Bytes :=
  match input with
  | [] => .error (.unfinished .text)
  | byte :: rest =>
    if byte = quote then
      .ok ([], rest)
    else if byte = backslash then
      match found : escape.run rest with
      | .error fault => .error fault
      | .ok (decoded, after) =>
        have _ := escape.shrinks found
        match readContent escape after with
        | .error fault => .error fault
        | .ok (content, last) => .ok (decoded ++ content, last)
    else if byte < 0x20 then
      .error .controlCharacter
    else
      match readContent escape rest with
      | .error fault => .error fault
      | .ok (content, last) => .ok (byte :: content, last)
termination_by input.length
decreasing_by
  · simp only [List.length_cons]
    omega
  · simp

theorem length_readContent_lt (escape : Reader Bytes) {input content rest : Bytes}
    (success : readContent escape input = .ok (content, rest)) : rest.length < input.length := by
  fun_induction readContent escape input generalizing content rest with
  | case1 => cases success
  | case2 => cases success; simp
  | case3 => cases success
  | case4 => cases success
  | case5 more decoded after found shorter inner last read notQuote hypothesis =>
    cases success
    have tail := hypothesis read
    simp only [List.length_cons]
    omega
  | case6 => cases success
  | case7 => cases success
  | case8 byte more _ _ _ inner last read hypothesis =>
    cases success
    exact Nat.lt_succ_of_lt (hypothesis read)

/-- The rest of a text whose opening quote has been read. -/
def content : Reader String where
  run input :=
    match readContent escape input with
    | .error fault => .error fault
    | .ok (bytes, rest) =>
      match Utf8.toString? bytes with
      | some text => .ok (text, rest)
      | none => .error .badEncoding
  shrinks := by
    intro input value rest success
    split at success
    · cases success
    · next found =>
      split at success
      · cases success
        exact length_readContent_lt escape found
      · cases success

/-- Skip the rest of a text whose opening quote has been read. -/
def skipContent (input : Bytes) : Except ReadError Bytes :=
  match readContent anyEscape input with
  | .error fault => .error fault
  | .ok (_, rest) => .ok rest

theorem length_skipContent_lt {input rest : Bytes} (success : skipContent input = .ok rest) :
    rest.length < input.length := by
  unfold skipContent at success
  split at success
  · cases success
  · next found =>
    cases success
    exact length_readContent_lt anyEscape found

end BundlePacker.Json
