import BundlePacker.Json.Escape
import BundlePacker.Json.Number

/-!
# Skipping values

A value under a name that is not known is skipped.  Its brackets may be nested to any depth, so the
ones that are still open are kept in a list, and one round of skipping takes a value or an opening
bracket and then every bracket that closes after it.
-/

namespace BundlePacker.Json

/-- What an open bracket encloses. -/
inductive Enclosure where
  | list
  | object
deriving DecidableEq

namespace Enclosure

/-- The bracket that closes an enclosure. -/
def closing : Enclosure → UInt8
  | list => closeSquare
  | object => closeCurly

/-- The error at the end of a text inside an enclosure. -/
def cutShort : Enclosure → ReadError
  | list => .unfinished .list
  | object => .unfinished .object

/-- The error where an enclosure should go on or end. -/
def endExpected : Enclosure → ReadError
  | list => .listEndExpected
  | object => .objectEndExpected

end Enclosure

/-- Skip a value that has no brackets, or the bracket that opens one. -/
def skipOpening (input : Bytes) : Except ReadError (Option Enclosure × Bytes) :=
  let scalar (outcome : Except ReadError Bytes) : Except ReadError (Option Enclosure × Bytes) :=
    match outcome with
    | .error fault => .error fault
    | .ok rest => .ok (none, rest)
  match skipSpace input with
  | [] => .error (.unfinished .value)
  | byte :: rest =>
    if byte = openSquare then .ok (some .list, rest)
    else if byte = openCurly then .ok (some .object, rest)
    else if byte = quote then scalar (skipContent rest)
    else if byte = Number.minus then scalar (Number.skip rest)
    else if Number.isDigit byte then scalar (Number.skip (byte :: rest))
    else if byte = 0x6E then scalar (word [0x75, 0x6C, 0x6C] rest)
    else if byte = 0x74 then scalar (word [0x72, 0x75, 0x65] rest)
    else if byte = 0x66 then scalar (word [0x61, 0x6C, 0x73, 0x65] rest)
    else .error .valueExpected

/-- Skip the colon after a name. -/
def skipColon (input : Bytes) : Except ReadError Bytes :=
  match skipSpace input with
  | [] => .error (.unfinished .object)
  | byte :: rest => if byte = colon then .ok rest else .error .colonExpected

/-- Skip a name and its colon. -/
def skipName (input : Bytes) : Except ReadError Bytes :=
  match skipSpace input with
  | [] => .error (.unfinished .object)
  | byte :: rest =>
    if byte = quote then
      match skipContent rest with
      | .error fault => .error fault
      | .ok after => skipColon after
    else
      .error .keyExpected

/-- Skip what stands before the next value of an enclosure: in an object, its name. -/
def skipToValue : Enclosure → Bytes → Except ReadError Bytes
  | .list, input => .ok input
  | .object, input => skipName input

/--
Skip closing brackets, and then what stands before the next value.  The enclosures that are open
afterwards are given back; none means that the whole value has been skipped.  An enclosure is fresh
when nothing has been read in it yet, so that no comma may stand there.
-/
def skipClosing : Bool → List Enclosure → Bytes → Except ReadError (List Enclosure × Bytes)
  | _, [], input => .ok ([], input)
  | isFresh, enclosure :: outer, input =>
    match skipSpace input with
    | [] => .error enclosure.cutShort
    | byte :: rest =>
      if byte = enclosure.closing then
        skipClosing false outer rest
      else if isFresh then
        match skipToValue enclosure (byte :: rest) with
        | .error fault => .error fault
        | .ok next => .ok (enclosure :: outer, next)
      else if byte = comma then
        match skipToValue enclosure rest with
        | .error fault => .error fault
        | .ok next => .ok (enclosure :: outer, next)
      else
        .error enclosure.endExpected

theorem length_skipOpening_lt {input rest : Bytes} {opened : Option Enclosure}
    (success : skipOpening input = .ok (opened, rest)) : rest.length < input.length := by
  have scalar : ∀ {outcome : Except ReadError Bytes},
      (match outcome with
        | .error fault => .error fault
        | .ok after => .ok (none, after) : Except ReadError (Option Enclosure × Bytes)) =
          .ok (opened, rest) → outcome = .ok rest := by
    intro outcome shown
    split at shown <;> cases shown
    rfl
  simp only [skipOpening] at success
  split at success
  · cases success
  · next byte more found =>
    have whole := length_lt_of_skipSpace found
    split at success
    · cases success
      exact whole
    split at success
    · cases success
      exact whole
    split at success
    · exact Nat.lt_trans (length_skipContent_lt (scalar success)) whole
    split at success
    · exact Nat.lt_trans (Number.length_skip_lt (scalar success)) whole
    split at success
    · have digits := Number.length_skip_lt (scalar success)
      rw [List.length_cons] at digits
      omega
    split at success
    · exact Nat.lt_of_le_of_lt (length_word_le (scalar success)) whole
    split at success
    · exact Nat.lt_of_le_of_lt (length_word_le (scalar success)) whole
    split at success
    · exact Nat.lt_of_le_of_lt (length_word_le (scalar success)) whole
    · cases success

theorem length_skipColon_lt {input rest : Bytes} (success : skipColon input = .ok rest) :
    rest.length < input.length := by
  unfold skipColon at success
  split at success
  · cases success
  · next found =>
    split at success
    · cases success
      exact length_lt_of_skipSpace found
    · cases success

theorem length_skipName_lt {input rest : Bytes} (success : skipName input = .ok rest) :
    rest.length < input.length := by
  unfold skipName at success
  split at success
  · cases success
  · next found =>
    have whole := length_lt_of_skipSpace found
    split at success
    · split at success
      · cases success
      · next skipped =>
        have name := length_skipContent_lt skipped
        have separator := length_skipColon_lt success
        omega
    · cases success

theorem length_skipToValue_le {enclosure : Enclosure} {input rest : Bytes}
    (success : skipToValue enclosure input = .ok rest) : rest.length ≤ input.length := by
  cases enclosure with
  | list =>
    cases success
    exact Nat.le_refl _
  | object => exact Nat.le_of_lt (length_skipName_lt success)

theorem length_skipClosing_le {isFresh : Bool} {enclosures remaining : List Enclosure}
    {input rest : Bytes}
    (success : skipClosing isFresh enclosures input = .ok (remaining, rest)) :
    rest.length ≤ input.length := by
  induction enclosures generalizing isFresh input with
  | nil =>
    cases success
    exact Nat.le_refl _
  | cons enclosure outer hypothesis =>
    simp only [skipClosing] at success
    split at success
    · cases success
    · next found =>
      have whole := length_lt_of_skipSpace found
      split at success
      · exact Nat.le_of_lt (Nat.lt_of_le_of_lt (hypothesis success) whole)
      split at success
      · split at success
        · cases success
        · next skipped =>
          cases success
          have tail := length_skipToValue_le skipped
          rw [List.length_cons] at tail
          omega
      split at success
      · split at success
        · cases success
        · next skipped =>
          cases success
          have tail := length_skipToValue_le skipped
          omega
      · cases success

/-- Skip a value that lies in the given enclosures, and everything up to the end of the last. -/
def skipFrom (enclosures : List Enclosure) (input : Bytes) : Except ReadError Bytes :=
  match opened : skipOpening input with
  | .error fault => .error fault
  | .ok (enclosure, rest) =>
    have _ := length_skipOpening_lt opened
    match closed : skipClosing enclosure.isSome (enclosure.toList ++ enclosures) rest with
    | .error fault => .error fault
    | .ok ([], after) => .ok after
    | .ok (inner :: outer, after) =>
      have _ := length_skipClosing_le closed
      skipFrom (inner :: outer) after
termination_by input.length

theorem length_skipFrom_lt {enclosures : List Enclosure} {input rest : Bytes}
    (success : skipFrom enclosures input = .ok rest) : rest.length < input.length := by
  fun_induction skipFrom enclosures input with
  | case1 => cases success
  | case2 => cases success
  | case3 enclosures input enclosure more opened first after closed =>
    cases success
    have second := length_skipClosing_le closed
    omega
  | case4 enclosures input enclosure more opened first inner outer after closed second hypothesis =>
    have third := hypothesis success
    omega

/-- Any value at all, whose meaning is not wanted. -/
def anyValue : Reader Unit where
  run input :=
    match skipFrom [] input with
    | .error fault => .error fault
    | .ok rest => .ok ((), rest)
  shrinks := by
    intro input value rest success
    split at success
    · cases success
    · next found =>
      cases success
      exact length_skipFrom_lt found

end BundlePacker.Json
