import Std.Data.ExtTreeMap
import BundlePacker.Json.Skip

/-!
# Texts, names, lists and maps

The readers from which the readers of records are put together.  Where a value of another shape
stands, the error says what was found, and so the value has to be read far enough to be named; if
that fails, the failure is the error.
-/

namespace BundlePacker.Json

/-- What stands at the front of a text that begins with no blank. -/
def identify : Bytes → Except ReadError Found
  | [] => .error (.unfinished .value)
  | byte :: rest =>
    if byte = openSquare then .ok .list
    else if byte = openCurly then .ok .object
    else if byte = quote then
      match content.run rest with
      | .error fault => .error fault
      | .ok (text, _) => .ok (.text text)
    else if byte = Number.minus then Number.read true rest
    else if Number.isDigit byte then Number.read false (byte :: rest)
    else if byte = 0x6E then (word [0x75, 0x6C, 0x6C] rest).map fun _ => .null
    else if byte = 0x74 then (word [0x72, 0x75, 0x65] rest).map fun _ => .boolean true
    else if byte = 0x66 then (word [0x61, 0x6C, 0x73, 0x65] rest).map fun _ => .boolean false
    else .error .valueExpected

/-- The error where a value has another shape than the expected one. -/
def mismatch (expected : Expected) (input : Bytes) : ReadError :=
  match identify input with
  | .error fault => fault
  | .ok found => .mismatch found expected

/-- A text. -/
def text : Reader String where
  run input :=
    match skipSpace input with
    | [] => .error (.unfinished .value)
    | byte :: rest =>
      if byte = quote then content.run rest else .error (mismatch .text (byte :: rest))
  shrinks := by
    intro input value rest success
    split at success
    · cases success
    · next found =>
      have whole := length_lt_of_skipSpace found
      split at success
      · exact Nat.lt_trans (content.shrinks success) whole
      · cases success

/-! ## Values that are known by name -/

/-- The meaning of a name. -/
def choose {α : Type} (known : List (String × α)) (name : String) : Except ReadError α :=
  match known.find? fun pair => pair.1 = name with
  | some pair => .ok pair.2
  | none => .error (.unknownName name (known.map fun pair => pair.1))

/-- Read a name whose opening quote has been read, and look up its meaning. -/
def readChoice {α : Type} (known : List (String × α)) (input : Bytes) : Outcome α :=
  match content.run input with
  | .error fault => .error fault
  | .ok (name, rest) =>
    match choose known name with
    | .error fault => .error fault
    | .ok meaning => .ok (meaning, rest)

/-- Read the null that stands beside a name, and the bracket after it. -/
def readNullAndClose (input : Bytes) : Except ReadError Bytes :=
  match skipSpace input with
  | [] => .error (.unfinished .value)
  | byte :: rest =>
    if byte = 0x6E then
      match word [0x75, 0x6C, 0x6C] rest with
      | .error fault => .error fault
      | .ok after =>
        match skipSpace after with
        | [] => .error (.unfinished .object)
        | last :: following =>
          if last = closeCurly then .ok following else .error .valueExpected
    else
      .error (mismatch .unit (byte :: rest))

/-- Read a name that is the only member of an object, whose opening bracket has been read. -/
def readTagged {α : Type} (known : List (String × α)) (input : Bytes) : Outcome α :=
  match skipSpace input with
  | [] => .error (.unfinished .object)
  | byte :: rest =>
    if byte = quote then
      match readChoice known rest with
      | .error fault => .error fault
      | .ok (meaning, afterName) =>
        match skipColon afterName with
        | .error fault => .error fault
        | .ok start =>
          match readNullAndClose start with
          | .error fault => .error fault
          | .ok last => .ok (meaning, last)
    else if byte = closeCurly then .error .valueExpected
    else .error .keyExpected

theorem length_readChoice_lt {α : Type} {known : List (String × α)} {input rest : Bytes}
    {meaning : α} (success : readChoice known input = .ok (meaning, rest)) :
    rest.length < input.length := by
  unfold readChoice at success
  split at success
  · cases success
  · next found =>
    split at success
    · cases success
    · cases success
      exact content.shrinks found

theorem length_readNullAndClose_lt {input rest : Bytes}
    (success : readNullAndClose input = .ok rest) : rest.length < input.length := by
  unfold readNullAndClose at success
  split at success
  · cases success
  · next found =>
    have whole := length_lt_of_skipSpace found
    split at success
    · split at success
      · cases success
      · next spelled =>
        have null := length_word_le spelled
        split at success
        · cases success
        · next closed =>
          have last := length_lt_of_skipSpace closed
          split at success
          · injection success with same
            subst same
            omega
          · cases success
    · cases success

theorem length_readTagged_lt {α : Type} {known : List (String × α)} {input rest : Bytes}
    {meaning : α} (success : readTagged known input = .ok (meaning, rest)) :
    rest.length < input.length := by
  unfold readTagged at success
  split at success
  · cases success
  · next found =>
    have whole := length_lt_of_skipSpace found
    split at success
    · split at success
      · cases success
      · next named =>
        have name := length_readChoice_lt named
        split at success
        · cases success
        · next separated =>
          have separator := length_skipColon_lt separated
          split at success
          · cases success
          · next closed =>
            have last := length_readNullAndClose_lt closed
            injection success with same
            injection same with _ same
            subst same
            omega
    · split at success <;> cases success

/-- One of the values that are known by name: the name alone, or an object that holds it. -/
def oneOf {α : Type} (known : List (String × α)) : Reader α where
  run input :=
    match skipSpace input with
    | [] => .error (.unfinished .value)
    | byte :: rest =>
      if byte = openCurly then readTagged known rest
      else if byte = quote then readChoice known rest
      else .error .valueExpected
  shrinks := by
    intro input value rest success
    split at success
    · cases success
    · next found =>
      have whole := length_lt_of_skipSpace found
      split at success
      · exact Nat.lt_trans (length_readTagged_lt success) whole
      split at success
      · exact Nat.lt_trans (length_readChoice_lt success) whole
      · cases success

/-! ## Lists -/

/-- How a list or an object goes on. -/
inductive Turn where
  /-- Its closing bracket has been read. -/
  | closed (rest : Bytes)
  /-- Another item begins. -/
  | item (start : Bytes)

/-- What is left of a text at a turn. -/
def Turn.rest : Turn → Bytes
  | closed rest => rest
  | item start => start

/-- Read on to the next element of a list, or to its end. -/
def nextElement (isFirst : Bool) (input : Bytes) : Except ReadError Turn :=
  match skipSpace input with
  | [] => .error (.unfinished .list)
  | byte :: rest =>
    if byte = closeSquare then .ok (.closed rest)
    else if isFirst then .ok (.item (byte :: rest))
    else if byte = comma then
      match skipSpace rest with
      | [] => .error (.unfinished .value)
      | next :: after =>
        if next = closeSquare then .error .trailingComma else .ok (.item (next :: after))
    else
      .error .listEndExpected

theorem length_nextElement_le {isFirst : Bool} {input : Bytes} {turn : Turn}
    (success : nextElement isFirst input = .ok turn) : turn.rest.length ≤ input.length := by
  unfold nextElement at success
  split at success
  · cases success
  · next byte rest found =>
    have bound := length_skipSpace_le input
    rw [found, List.length_cons] at bound
    split at success
    · cases success
      simp only [Turn.rest]
      omega
    split at success
    · cases success
      simp only [Turn.rest, List.length_cons]
      omega
    split at success
    · split at success
      · cases success
      · next next after following =>
        have inner := length_skipSpace_le rest
        rw [following, List.length_cons] at inner
        split at success
        · cases success
        · cases success
          simp only [Turn.rest, List.length_cons]
          omega
    · cases success

/-- Read the elements of a list up to its closing bracket. -/
def readElements {α : Type} (element : Reader α) (isFirst : Bool) (input : Bytes) :
    Outcome (List α) :=
  match turned : nextElement isFirst input with
  | .error fault => .error fault
  | .ok (.closed rest) => .ok ([], rest)
  | .ok (.item start) =>
    have _ : start.length ≤ input.length := length_nextElement_le turned
    match found : element.run start with
    | .error fault => .error fault
    | .ok (value, rest) =>
      have _ := element.shrinks found
      match readElements element false rest with
      | .error fault => .error fault
      | .ok (values, last) => .ok (value :: values, last)
termination_by input.length

theorem length_readElements_le {α : Type} {element : Reader α} {isFirst : Bool}
    {input rest : Bytes} {values : List α}
    (success : readElements element isFirst input = .ok (values, rest)) :
    rest.length ≤ input.length := by
  fun_induction readElements element isFirst input generalizing values rest with
  | case1 => cases success
  | case2 isFirst input last turned =>
    cases success
    exact length_nextElement_le turned
  | case3 => cases success
  | case4 => cases success
  | case5 isFirst input start turned bound value after found shorter inner last read hypothesis =>
    cases success
    have tail := hypothesis read
    omega

/-- A list of values of one kind. -/
def list {α : Type} (element : Reader α) : Reader (List α) where
  run input :=
    match skipSpace input with
    | [] => .error (.unfinished .value)
    | byte :: rest =>
      if byte = openSquare then readElements element true rest
      else .error (mismatch .list (byte :: rest))
  shrinks := by
    intro input value rest success
    split at success
    · cases success
    · next found =>
      have whole := length_lt_of_skipSpace found
      split at success
      · exact Nat.lt_of_le_of_lt (length_readElements_le success) whole
      · cases success

/-! ## Objects -/

/-- Read on to the next name of an object and past its opening quote, or to the object's end. -/
def nextName (isFirst : Bool) (input : Bytes) : Except ReadError Turn :=
  match skipSpace input with
  | [] => .error (.unfinished .object)
  | byte :: rest =>
    if byte = closeCurly then .ok (.closed rest)
    else if isFirst then
      if byte = quote then .ok (.item rest) else .error .keyExpected
    else if byte = comma then
      match skipSpace rest with
      | [] => .error (.unfinished .value)
      | next :: after =>
        if next = quote then .ok (.item after)
        else if next = closeCurly then .error .trailingComma
        else .error .keyExpected
    else
      .error .objectEndExpected

theorem length_nextName_le {isFirst : Bool} {input : Bytes} {turn : Turn}
    (success : nextName isFirst input = .ok turn) : turn.rest.length ≤ input.length := by
  unfold nextName at success
  split at success
  · cases success
  · next byte rest found =>
    have whole := length_lt_of_skipSpace found
    split at success
    · cases success
      exact Nat.le_of_lt whole
    split at success
    · split at success
      · cases success
        exact Nat.le_of_lt whole
      · cases success
    split at success
    · split at success
      · cases success
      · next next after following =>
        have inner := length_lt_of_skipSpace following
        split at success
        · cases success
          simp only [Turn.rest]
          omega
        · split at success <;> cases success
    · cases success

/--
How members are taken up: given what has been gathered and the name of the next member, the reader
of its value, which says what is gathered after it.
-/
abbrev Gathering (σ : Type) :=
  σ → String → Except ReadError (Reader (σ → σ))

/-- Read a member whose opening quote has been read. -/
def readMember {σ : Type} (gather : Gathering σ) (gathered : σ) (input : Bytes) : Outcome σ :=
  match content.run input with
  | .error fault => .error fault
  | .ok (name, afterName) =>
    match gather gathered name with
    | .error fault => .error fault
    | .ok value =>
      match skipColon afterName with
      | .error fault => .error fault
      | .ok start =>
        match value.run start with
        | .error fault => .error fault
        | .ok (update, rest) => .ok (update gathered, rest)

theorem length_readMember_lt {σ : Type} {gather : Gathering σ} {gathered next : σ}
    {input rest : Bytes} (success : readMember gather gathered input = .ok (next, rest)) :
    rest.length < input.length := by
  unfold readMember at success
  split at success
  · cases success
  · next named =>
    have name := content.shrinks named
    split at success
    · cases success
    · next value chosen =>
      split at success
      · cases success
      · next separated =>
        have separator := length_skipColon_lt separated
        split at success
        · cases success
        · next found =>
          have inner := value.shrinks found
          injection success with same
          injection same with _ same
          subst same
          omega

/-- Read the members of an object up to its closing bracket. -/
def readMembers {σ : Type} (gather : Gathering σ) (isFirst : Bool) (gathered : σ)
    (input : Bytes) : Outcome σ :=
  match turned : nextName isFirst input with
  | .error fault => .error fault
  | .ok (.closed rest) => .ok (gathered, rest)
  | .ok (.item start) =>
    have _ : start.length ≤ input.length := length_nextName_le turned
    match found : readMember gather gathered start with
    | .error fault => .error fault
    | .ok (next, rest) =>
      have _ := length_readMember_lt found
      readMembers gather false next rest
termination_by input.length

theorem length_readMembers_le {σ : Type} {gather : Gathering σ} {isFirst : Bool}
    {gathered result : σ} {input rest : Bytes}
    (success : readMembers gather isFirst gathered input = .ok (result, rest)) :
    rest.length ≤ input.length := by
  fun_induction readMembers gather isFirst gathered input with
  | case1 => cases success
  | case2 isFirst gathered input last turned =>
    cases success
    exact length_nextName_le turned
  | case3 => cases success
  | case4 isFirst gathered input start turned bound next after found shorter hypothesis =>
    have tail := hypothesis success
    omega

/-- A map from names to values of one kind; a repeated name keeps the last of its values. -/
def map {α : Type} (value : Reader α) : Reader (Std.ExtTreeMap String α) where
  run input :=
    match skipSpace input with
    | [] => .error (.unfinished .value)
    | byte :: rest =>
      if byte = openCurly then
        readMembers
          (fun _ name => .ok (value.map fun found gathered => gathered.insert name found))
          true ∅ rest
      else
        .error (mismatch .map (byte :: rest))
  shrinks := by
    intro input value rest success
    split at success
    · cases success
    · next found =>
      have whole := length_lt_of_skipSpace found
      split at success
      · exact Nat.lt_of_le_of_lt (length_readMembers_le success) whole
      · cases success

end BundlePacker.Json
