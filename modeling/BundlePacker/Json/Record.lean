import BundlePacker.Json.Container

/-!
# Records

A record has named fields in a fixed order, and is written as an object or as the list of its
values.  In an object the order is free, unknown names are skipped with their values, and a known
name that comes twice is an error as soon as it is read.  What has been read of a record is kept in
a draft; a field knows whether a draft has it, and how its value goes in.
-/

namespace BundlePacker.Json

/-- A field of a record that is gathered in drafts of a given type. -/
structure Field (σ : Type) where
  /-- The name of the field in objects. -/
  name : String
  /-- Whether a draft has the field. -/
  isPresent : σ → Bool
  /-- A value of the field, as what it does to a draft. -/
  value : Reader (σ → σ)

/-- A record of a given type, gathered in drafts of another. -/
structure Record (σ α : Type) where
  /-- What the record is called in messages. -/
  title : String
  /-- The fields, in order. -/
  fields : List (Field σ)
  /-- The draft that has no field. -/
  blank : σ
  /-- The record that a draft makes, or the first field that is missing. -/
  finish : σ → Except ReadError α

namespace Record

variable {σ α : Type}

/-- How the members of an object are taken up into a draft. -/
def gather (record : Record σ α) : Gathering σ :=
  fun draft name =>
    match record.fields.find? fun field => field.name = name with
    | none => .ok (anyValue.map fun _ => id)
    | some field => if field.isPresent draft then .error (.duplicateField name) else .ok field.value

/-- Finish a draft that has been read, with the rest of the text after it. -/
def finishWith (record : Record σ α) (draft : σ) (rest : Bytes) : Outcome α :=
  match record.finish draft with
  | .error fault => .error fault
  | .ok value => .ok (value, rest)

/-- Read a record as an object whose opening bracket has been read. -/
def readObject (record : Record σ α) (input : Bytes) : Outcome α :=
  match readMembers record.gather true record.blank input with
  | .error fault => .error fault
  | .ok (draft, rest) => record.finishWith draft rest

/-- Read the end of a list that has had all its elements. -/
def readListEnd (input : Bytes) : Except ReadError Bytes :=
  match skipSpace input with
  | [] => .error (.unfinished .list)
  | byte :: rest =>
    if byte = closeSquare then .ok rest
    else if byte = comma then
      if (skipSpace rest).head? = some closeSquare then .error .trailingComma
      else .error .trailingCharacters
    else .error .trailingCharacters

/-- Read fields from the elements of a list, given how many have been read before. -/
def readFields (record : Record σ α) : List (Field σ) → Nat → σ → Bytes → Outcome σ
  | [], _, draft, input =>
    match readListEnd input with
    | .error fault => .error fault
    | .ok rest => .ok (draft, rest)
  | field :: others, count, draft, input =>
    match nextElement (count = 0) input with
    | .error fault => .error fault
    | .ok (.closed _) => .error (.tooShort count record.title record.fields.length)
    | .ok (.item start) =>
      match field.value.run start with
      | .error fault => .error fault
      | .ok (update, rest) => readFields record others (count + 1) (update draft) rest

/-- Read a record as a list whose opening bracket has been read. -/
def readList (record : Record σ α) (input : Bytes) : Outcome α :=
  match record.readFields record.fields 0 record.blank input with
  | .error fault => .error fault
  | .ok (draft, rest) => record.finishWith draft rest

theorem finishWith_rest {record : Record σ α} {draft : σ} {rest last : Bytes} {value : α}
    (success : record.finishWith draft rest = .ok (value, last)) : last = rest := by
  unfold finishWith at success
  split at success
  · cases success
  · cases success
    rfl

theorem length_readListEnd_lt {input rest : Bytes} (success : readListEnd input = .ok rest) :
    rest.length < input.length := by
  unfold readListEnd at success
  split at success
  · cases success
  · next found =>
    have whole := length_lt_of_skipSpace found
    split at success
    · cases success
      exact whole
    split at success
    · split at success <;> cases success
    · cases success

theorem length_readFields_le {record : Record σ α} {fields : List (Field σ)} {count : Nat}
    {draft result : σ} {input rest : Bytes}
    (success : record.readFields fields count draft input = .ok (result, rest)) :
    rest.length ≤ input.length := by
  induction fields generalizing count draft input with
  | nil =>
    simp only [readFields] at success
    split at success
    · cases success
    · next closed =>
      cases success
      exact Nat.le_of_lt (length_readListEnd_lt closed)
  | cons field others hypothesis =>
    simp only [readFields] at success
    split at success
    · cases success
    · cases success
    · next start turned =>
      have turn : start.length ≤ input.length := length_nextElement_le turned
      split at success
      · cases success
      · next found =>
        have inner := field.value.shrinks found
        have tail := hypothesis success
        omega

theorem length_readObject_le {record : Record σ α} {input rest : Bytes} {value : α}
    (success : record.readObject input = .ok (value, rest)) : rest.length ≤ input.length := by
  unfold readObject at success
  split at success
  · cases success
  · next gathered =>
    rw [finishWith_rest success]
    exact length_readMembers_le gathered

theorem length_readList_le {record : Record σ α} {input rest : Bytes} {value : α}
    (success : record.readList input = .ok (value, rest)) : rest.length ≤ input.length := by
  unfold readList at success
  split at success
  · cases success
  · next gathered =>
    rw [finishWith_rest success]
    exact length_readFields_le gathered

/-- A record, as an object or as a list. -/
def reader (record : Record σ α) : Reader α where
  run input :=
    match skipSpace input with
    | [] => .error (.unfinished .value)
    | byte :: rest =>
      if byte = openCurly then record.readObject rest
      else if byte = openSquare then record.readList rest
      else .error (mismatch (.record record.title) (byte :: rest))
  shrinks := by
    intro input value rest success
    split at success
    · cases success
    · next found =>
      have whole := length_lt_of_skipSpace found
      split at success
      · exact Nat.lt_of_le_of_lt (length_readObject_le success) whole
      split at success
      · exact Nat.lt_of_le_of_lt (length_readList_le success) whole
      · cases success

end Record

/-- A field's value in a draft, where it must not be missing. -/
def require {α : Type} (name : String) : Option α → Except ReadError α
  | some value => .ok value
  | none => .error (.missingField name)

end BundlePacker.Json
