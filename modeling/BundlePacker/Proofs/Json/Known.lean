import BundlePacker.Proofs.Json.Fields

/-!
# Objects without other names

The object of a record may have members of any name, and those of a name without a field are
skipped.  A reader that refuses them tells the texts in which every name is that of a field.

The main statements say that such a reader gives what the lenient one gives, unless it meets a name
that is not known, and that this goes through lists, maps and records.
-/

namespace BundlePacker.Json

/-! ## Readers that refuse more -/

/-- What a step of a strict reader gives, compared with the same step of a lenient one. -/
inductive Refines {ρ : Type} : Except ReadError ρ → Except ReadError ρ → Prop
  | same (outcome : Except ReadError ρ) :
      Refines outcome outcome
  /-- The strict reader refuses a name. -/
  | refused (name : String) (known : List String) (lenient : Except ReadError ρ) :
      Refines (.error (.unknownName name known)) lenient

/-- Whether a reader gives the same as a lenient one, as long as it does not refuse a name. -/
def Reader.Refines {α : Type} (strict lenient : Reader α) : Prop :=
  ∀ input, Json.Refines (strict.run input) (lenient.run input)

namespace Refines

variable {ρ : Type} {strict lenient : Except ReadError ρ}

/-- Where the text ends too early for the strict reader, it does so for the lenient one. -/
theorem unfinished (refines : Refines strict lenient) {inside : Unfinished}
    (failure : strict = .error (.unfinished inside)) : lenient = .error (.unfinished inside) := by
  cases refines with
  | same => exact failure
  | refused => cases failure

end Refines

namespace Reader

variable {α β : Type} {strict lenient : Reader α}

theorem Refines.refl (reader : Reader α) : reader.Refines reader :=
  fun _ => .same _

theorem Refines.map (refines : strict.Refines lenient) (transform : α → β) :
    (strict.map transform).Refines (lenient.map transform) := by
  intro input
  have step := refines input
  simp only [Reader.map]
  generalize strict.run input = first, lenient.run input = second at step ⊢
  cases step with
  | same => exact .same _
  | refused => exact .refused ..

theorem Refines.readAll (refines : strict.Refines lenient) (input : Bytes) :
    Json.Refines (strict.readAll input) (lenient.readAll input) := by
  have step := refines input
  simp only [Reader.readAll]
  generalize strict.run input = first, lenient.run input = second at step ⊢
  cases step with
  | same => exact .same _
  | refused => exact .refused ..

end Reader

/-! ## Lists and objects -/

theorem readElements_refines {α : Type} {strict lenient : Reader α}
    (refines : strict.Refines lenient) (isFirst : Bool) (input : Bytes) :
    Refines (readElements strict isFirst input) (readElements lenient isFirst input) := by
  rw [readElements_eq strict, readElements_eq lenient]
  cases turned : nextElement isFirst input with
  | error fault => exact .same _
  | ok turn =>
      cases turn with
      | closed rest => exact .same _
      | item start =>
          have bound : start.length ≤ input.length := length_nextElement_le turned
          have step := refines start
          simp only
          generalize found : strict.run start = first, lenient.run start = second at step ⊢
          cases step with
          | refused => exact .refused ..
          | same =>
              cases first with
              | error fault => exact .same _
              | ok result =>
                  have shorter := strict.shrinks found
                  have later := readElements_refines refines false result.2
                  simp only
                  generalize readElements strict false result.2 = first,
                    readElements lenient false result.2 = second at later ⊢
                  cases later with
                  | refused => exact .refused ..
                  | same => exact .same _
termination_by input.length

theorem list_refines {α : Type} {strict lenient : Reader α} (refines : strict.Refines lenient) :
    (list strict).Refines (list lenient) := by
  intro input
  simp only [list]
  cases skipSpace input with
  | nil => exact .same _
  | cons byte rest =>
      simp only
      split
      · exact readElements_refines refines true rest
      · exact .same _

/-- Whether a gathering takes up what a lenient one takes up, or refuses the name. -/
inductive GathersLike {σ : Type} (lenient : Except ReadError (Reader (σ → σ))) :
    Except ReadError (Reader (σ → σ)) → Prop
  | refused (name : String) (known : List String) :
      GathersLike lenient (.error (.unknownName name known))
  | failed {fault : ReadError} (same : lenient = .error fault) :
      GathersLike lenient (.error fault)
  | chosen {strict reader : Reader (σ → σ)} (same : lenient = .ok reader)
      (refines : strict.Refines reader) :
      GathersLike lenient (.ok strict)

/-- Whether a gathering takes up members as a lenient one does, unless it refuses their names. -/
def Gathering.Refines {σ : Type} (strict lenient : Gathering σ) : Prop :=
  ∀ gathered name, GathersLike (lenient gathered name) (strict gathered name)

section

variable {σ : Type} {strict lenient : Gathering σ}

theorem readMember_refines (refines : strict.Refines lenient) (gathered : σ) (input : Bytes) :
    Refines (readMember strict gathered input) (readMember lenient gathered input) := by
  simp only [readMember]
  cases content.run input with
  | error fault => exact .same _
  | ok named =>
      have step := refines gathered named.1
      simp only
      generalize strict gathered named.1 = outcome at step ⊢
      cases step with
      | refused => exact .refused ..
      | failed same =>
          simp only [same]
          exact .same _
      | @chosen reader _ same inner =>
          simp only [same]
          cases skipColon named.2 with
          | error fault => exact .same _
          | ok start =>
              have value := inner start
              simp only
              generalize reader.run start = first, Reader.run _ start = second at value ⊢
              cases value with
              | refused => exact .refused ..
              | same => exact .same _

theorem readMembers_refines (refines : strict.Refines lenient) (isFirst : Bool) (gathered : σ)
    (input : Bytes) :
    Refines (readMembers strict isFirst gathered input)
      (readMembers lenient isFirst gathered input) := by
  rw [readMembers_eq strict, readMembers_eq lenient]
  cases turned : nextName isFirst input with
  | error fault => exact .same _
  | ok turn =>
      cases turn with
      | closed rest => exact .same _
      | item start =>
          have bound : start.length ≤ input.length := length_nextName_le turned
          have step := readMember_refines refines gathered start
          simp only
          generalize found : readMember strict gathered start = first,
            readMember lenient gathered start = second at step ⊢
          cases step with
          | refused => exact .refused ..
          | same =>
              cases first with
              | error fault => exact .same _
              | ok result =>
                  have shorter := length_readMember_lt found
                  exact readMembers_refines refines false result.1 result.2
termination_by input.length

end

theorem map_refines {α : Type} {strict lenient : Reader α} (refines : strict.Refines lenient) :
    (map strict).Refines (map lenient) := by
  intro input
  simp only [map]
  cases skipSpace input with
  | nil => exact .same _
  | cons byte rest =>
      simp only
      split
      · refine readMembers_refines (fun gathered name => ?_) true ∅ rest
        exact .chosen rfl (refines.map _)
      · exact .same _

/-! ## Records -/

/-- A field whose value is read by another reader, if it has a given name. -/
def Field.withValue {σ : Type} (field : Field σ) (name : String)
    (value : Reader (σ → σ)) : Field σ :=
  if field.name = name then { field with value } else field

namespace Record

variable {σ α : Type}

/-- Take up a member under the name of a field, and refuse any other name. -/
def gatherKnown (record : Record σ α) : Gathering σ :=
  fun draft name =>
    if name ∈ record.names then record.gather draft name
    else .error (.unknownName name record.names)

/-- Read a record as an object that has no other names than those of the fields. -/
def readKnown (record : Record σ α) (input : Bytes) : Outcome α :=
  match readMembers record.gatherKnown true record.blank input with
  | .error fault => .error fault
  | .ok (draft, rest) => record.finishWith draft rest

theorem length_readKnown_le {record : Record σ α} {input rest : Bytes} {value : α}
    (success : record.readKnown input = .ok (value, rest)) : rest.length ≤ input.length := by
  unfold readKnown at success
  split at success
  · cases success
  · next gathered =>
    rw [finishWith_rest success]
    exact length_readMembers_le gathered

/-- A record that refuses the names that are not its own. -/
def knownReader (record : Record σ α) : Reader α where
  run input :=
    match skipSpace input with
    | [] => .error (.unfinished .value)
    | byte :: rest =>
      if byte = openCurly then record.readKnown rest
      else if byte = openSquare then record.readList rest
      else .error (mismatch (.record record.title) (byte :: rest))
  shrinks := by
    intro input value rest success
    split at success
    · cases success
    · next found =>
      have whole := length_lt_of_skipSpace found
      split at success
      · exact Nat.lt_of_le_of_lt (length_readKnown_le success) whole
      split at success
      · exact Nat.lt_of_le_of_lt (length_readList_le success) whole
      · cases success

/-- A record whose field of a given name is read by another reader. -/
def withValue (record : Record σ α) (name : String) (value : Reader (σ → σ)) : Record σ α :=
  { record with fields := record.fields.map fun field => field.withValue name value }

end Record

/-- Whether a field reads what another one reads, or refuses a name in it. -/
structure Field.Refines {σ : Type} (strict lenient : Field σ) : Prop where
  name : strict.name = lenient.name
  isPresent : strict.isPresent = lenient.isPresent
  value : strict.value.Refines lenient.value

/-- Whether a record is another one, up to the readers of its fields, which may refuse more. -/
structure Record.Refines {σ α : Type} (strict lenient : Record σ α) : Prop where
  title : strict.title = lenient.title
  fields : List.Forall₂ Field.Refines strict.fields lenient.fields
  blank : strict.blank = lenient.blank
  finish : strict.finish = lenient.finish

theorem Field.Refines.refl {σ : Type} (field : Field σ) : field.Refines field where
  name := rfl
  isPresent := rfl
  value := .refl field.value

namespace Record

variable {σ α : Type} {strict lenient : Record σ α}

theorem Refines.refl (record : Record σ α) : record.Refines record where
  title := rfl
  fields := List.forall₂_same.mpr fun field _ => .refl field
  blank := rfl
  finish := rfl

theorem withValue_refines {record : Record σ α} {name : String} {value : Reader (σ → σ)}
    (refines : ∀ field ∈ record.fields, field.name = name → value.Refines field.value) :
    (record.withValue name value).Refines record where
  title := rfl
  fields := by
    refine List.forall₂_map_left_iff.mpr (List.forall₂_same.mpr fun field inside => ?_)
    unfold Field.withValue
    split
    · next same => exact ⟨rfl, rfl, refines field inside same⟩
    · exact .refl field
  blank := rfl
  finish := rfl

/-- Two lists of fields that refine each other have the same fields by name. -/
theorem forall₂_find? {first second : List (Field σ)}
    (refines : List.Forall₂ Field.Refines first second) (name : String) :
    Option.Rel Field.Refines (first.find? fun field => field.name = name)
      (second.find? fun field => field.name = name) := by
  induction refines with
  | nil => exact .none
  | @cons field other fields others same later hypothesis =>
      simp only [List.find?_cons, same.name]
      split
      · exact .some same
      · exact hypothesis

theorem Refines.gatherKnown (refines : strict.Refines lenient) :
    strict.gatherKnown.Refines lenient.gather := by
  intro draft name
  unfold Record.gatherKnown
  split
  · have found := forall₂_find? refines.fields name
    unfold gather
    generalize strict.fields.find? _ = field?, lenient.fields.find? _ = other? at found ⊢
    cases found with
    | none => exact .chosen rfl (.refl _)
    | some same =>
        simp only [same.isPresent]
        split
        · exact .failed rfl
        · exact .chosen rfl same.value
  · exact .refused name strict.names

theorem Refines.finishWith (refines : strict.Refines lenient) (draft : σ) (rest : Bytes) :
    strict.finishWith draft rest = lenient.finishWith draft rest := by
  simp only [Record.finishWith, refines.finish]

theorem Refines.readFields (refines : strict.Refines lenient) {fields others : List (Field σ)}
    (each : List.Forall₂ Field.Refines fields others) (count : Nat) (draft : σ) (input : Bytes) :
    Json.Refines (strict.readFields fields count draft input)
      (lenient.readFields others count draft input) := by
  induction each generalizing count draft input with
  | nil => exact .same _
  | @cons field other fields others same later hypothesis =>
      simp only [Record.readFields, refines.title, refines.fields.length_eq]
      cases nextElement (count = 0) input with
      | error fault => exact .same _
      | ok turn =>
          cases turn with
          | closed rest => exact .same _
          | item start =>
              have step := same.value start
              simp only
              generalize field.value.run start = first, other.value.run start = second at step ⊢
              cases step with
              | refused => exact .refused ..
              | same =>
                  cases first with
                  | error fault => exact .same _
                  | ok result => exact hypothesis (count + 1) (result.1 draft) result.2

theorem Refines.readList (refines : strict.Refines lenient) (input : Bytes) :
    Json.Refines (strict.readList input) (lenient.readList input) := by
  have step := refines.readFields refines.fields 0 strict.blank input
  simp only [Record.readList, ← refines.blank]
  generalize strict.readFields _ _ _ _ = first, lenient.readFields _ _ _ _ = second at step ⊢
  cases step with
  | refused => exact .refused ..
  | same =>
      simp only [refines.finishWith]
      exact .same _

theorem Refines.readKnown (refines : strict.Refines lenient) (input : Bytes) :
    Json.Refines (strict.readKnown input) (lenient.readObject input) := by
  have step := readMembers_refines refines.gatherKnown true strict.blank input
  simp only [Record.readKnown, readObject, ← refines.blank]
  generalize readMembers strict.gatherKnown _ _ _ = first, readMembers lenient.gather _ _ _ = second
    at step ⊢
  cases step with
  | refused => exact .refused ..
  | same =>
      simp only [refines.finishWith]
      exact .same _

/-- Where no name is refused, the lenient reader gives the same. -/
theorem Refines.knownReader (refines : strict.Refines lenient) :
    strict.knownReader.Refines lenient.reader := by
  intro input
  simp only [Record.knownReader, reader, refines.title]
  cases skipSpace input with
  | nil => exact .same _
  | cons byte rest =>
      simp only
      split
      · exact refines.readKnown rest
      split
      · exact refines.readList rest
      · exact .same _

end Record

end BundlePacker.Json
