import BundlePacker.Json.Reader

/-!
# Numbers

Numbers mean nothing in a descriptor.  They are read where a message has to say what was found in
the place of something else, and skipped under names that are not known.  A number without point and
exponent is an integer as long as it fits into 64 bits; every other number is kept in double
precision, and digits that do not fit into 64 bits only count towards the exponent.
-/

namespace BundlePacker.Json.Number

abbrev minus : UInt8 := 0x2D

abbrev plus : UInt8 := 0x2B

abbrev point : UInt8 := 0x2E

abbrev zero : UInt8 := 0x30

/-- Whether a byte is a decimal digit. -/
def isDigit (byte : UInt8) : Bool :=
  0x30 ≤ byte && byte ≤ 0x39

/-- Whether a byte introduces an exponent. -/
def isExponentMark (byte : UInt8) : Bool :=
  byte = 0x65 || byte = 0x45

/-- The value of a digit. -/
def digitValue (byte : UInt8) : Nat :=
  byte.toNat - 48

/-- The largest significand. -/
def greatestSignificand : Nat :=
  UInt64.size - 1

/-- Exponents beyond this one are not told apart. -/
def greatestExponent : Nat :=
  Int32.maxValue.toNatClampNeg

/-- Take digits into a number up to a bound; the digits that would pass it are left over. -/
def accumulate (bound : Nat) : Nat → Bytes → Nat × Bytes
  | value, [] => (value, [])
  | value, digit :: rest =>
    let next := value * 10 + digitValue digit
    if bound < next then (value, digit :: rest) else accumulate bound next rest

/-- A number in double precision, unless it is too large. -/
def floating (negative : Bool) (significand : Nat) (exponent : Int) : Except ReadError Found :=
  match Decimal.scaled? significand exponent with
  | none => .error .numberOutOfRange
  | some magnitude => .ok (.floating negative magnitude)

/-- Read what follows the mark of an exponent. -/
def readExponent (negative : Bool) (significand : Nat) (start : Int) (input : Bytes) :
    Except ReadError Found :=
  let (down, digits) :=
    match input with
    | byte :: rest => if byte = minus then (true, rest) else if byte = plus then (false, rest)
      else (false, input)
    | [] => (false, [])
  match digits with
  | [] => .error (.unfinished .value)
  | first :: _ =>
    if isDigit first then
      match accumulate greatestExponent 0 (digits.takeWhile isDigit) with
      | (exponent, []) =>
        floating negative significand (if down then start - exponent else start + exponent)
      | (_, _ :: _) =>
        if significand ≠ 0 ∧ !down then .error .numberOutOfRange
        else .ok (.floating negative 0)
    else
      .error .badNumber

/-- Read what follows a decimal point. -/
def readFraction (negative : Bool) (significand : Nat) (start : Int) (input : Bytes) :
    Except ReadError Found :=
  match input with
  | [] => .error (.unfinished .value)
  | first :: _ =>
    if isDigit first then
      let digits := input.takeWhile isDigit
      let (value, left) := accumulate greatestSignificand significand digits
      let exponent := start - ((digits.length - left.length : Nat) : Int)
      match input.dropWhile isDigit with
      | byte :: rest =>
        if isExponentMark byte then readExponent negative value exponent rest
        else floating negative value exponent
      | [] => floating negative value exponent
    else
      .error .badNumber

/-- A number without point and exponent. -/
def integer (negative : Bool) (value : Nat) : Except ReadError Found :=
  if negative then
    if value = 0 ∨ UInt64.size / 2 < value then .ok (.floating true (Decimal.rounded value))
    else .ok (.integer (-(value : Int)))
  else
    .ok (.integer value)

/-- Read a number, whose sign has been read already. -/
def read (negative : Bool) (input : Bytes) : Except ReadError Found :=
  match input with
  | [] => .error (.unfinished .value)
  | first :: more =>
    if isDigit first then
      if first = zero ∧ more.head?.any isDigit then
        .error .badNumber
      else
        let (value, left) := accumulate greatestSignificand 0 (input.takeWhile isDigit)
        let exponent : Int := left.length
        match input.dropWhile isDigit with
        | [] => if left = [] then integer negative value else floating negative value exponent
        | byte :: rest =>
          if byte = point then readFraction negative value exponent rest
          else if isExponentMark byte then readExponent negative value exponent rest
          else if left = [] then integer negative value
          else floating negative value exponent
    else
      .error .badNumber

/-- Skip what follows the mark of an exponent. -/
def skipExponent (input : Bytes) : Except ReadError Bytes :=
  let digits :=
    match input with
    | byte :: rest => if byte = minus ∨ byte = plus then rest else input
    | [] => []
  match digits with
  | first :: rest => if isDigit first then .ok (rest.dropWhile isDigit) else .error .badNumber
  | [] => .error .badNumber

/-- Skip an exponent, if there is one. -/
def skipExponentPart (input : Bytes) : Except ReadError Bytes :=
  match input with
  | byte :: rest => if isExponentMark byte then skipExponent rest else .ok input
  | [] => .ok []

/-- Skip what follows the digits before the point. -/
def skipFractionPart (input : Bytes) : Except ReadError Bytes :=
  match input with
  | byte :: rest =>
    if byte = point then
      match rest with
      | [] => .error .badNumber
      | first :: more =>
        if isDigit first then skipExponentPart (more.dropWhile isDigit) else .error .badNumber
    else
      skipExponentPart input
  | [] => .ok []

/-- Skip a number, whose sign has been skipped already. -/
def skip (input : Bytes) : Except ReadError Bytes :=
  match input with
  | [] => .error .badNumber
  | first :: rest =>
    if isDigit first then
      if first = zero then
        if rest.head?.any isDigit then .error .badNumber else skipFractionPart rest
      else
        skipFractionPart (rest.dropWhile isDigit)
    else
      .error .badNumber

theorem length_skipExponent_le {input rest : Bytes} (success : skipExponent input = .ok rest) :
    rest.length ≤ input.length := by
  have signed : (match input with
      | byte :: after => if byte = minus ∨ byte = plus then after else input
      | [] => []).length ≤ input.length := by
    split
    · split <;> simp
    · simp
  simp only [skipExponent] at success
  generalize (match input with
    | byte :: after => if byte = minus ∨ byte = plus then after else input
    | [] => []) = digits at signed success
  split at success
  · split at success
    · cases success
      have bound := length_dropWhile_le isDigit
      rename_i first more _
      have := bound more
      simp only [List.length_cons] at signed
      omega
    · cases success
  · cases success

theorem length_skipExponentPart_le {input rest : Bytes}
    (success : skipExponentPart input = .ok rest) : rest.length ≤ input.length := by
  unfold skipExponentPart at success
  split at success
  · split at success
    · exact Nat.le_succ_of_le (length_skipExponent_le success)
    · cases success
      exact Nat.le_refl _
  · cases success
    exact Nat.le_refl _

theorem length_skipFractionPart_le {input rest : Bytes}
    (success : skipFractionPart input = .ok rest) : rest.length ≤ input.length := by
  unfold skipFractionPart at success
  split at success
  · split at success
    · split at success
      · cases success
      · split at success
        · have tail := length_skipExponentPart_le success
          rename_i first more _
          have digits := length_dropWhile_le isDigit more
          simp only [List.length_cons]
          omega
        · cases success
    · exact length_skipExponentPart_le success
  · cases success
    exact Nat.le_refl _

theorem length_skip_lt {input rest : Bytes} (success : skip input = .ok rest) :
    rest.length < input.length := by
  unfold skip at success
  split at success
  · cases success
  · rename_i first more
    split at success
    · split at success
      · split at success
        · cases success
        · exact Nat.lt_succ_of_le (length_skipFractionPart_le success)
      · have tail := length_skipFractionPart_le success
        have digits := length_dropWhile_le isDigit more
        simp only [List.length_cons]
        omega
    · cases success

end BundlePacker.Json.Number
