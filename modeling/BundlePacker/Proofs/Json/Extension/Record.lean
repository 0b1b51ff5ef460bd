import BundlePacker.Proofs.Json.Extension

/-!
# What follows a list or an object

A list, a map and a record end with a byte of their own.  Their elements and members need not: what
comes after one of them is there in any case, because the list or the object is not over yet.

The main statement says that every reader of a record goes on in the same way, whatever is put
behind the text it has read.
-/

namespace BundlePacker.Json

/-! ## Lists -/

/-- A turn with more behind it. -/
def Turn.append : Turn → Bytes → Turn
  | closed rest, more => closed (rest ++ more)
  | item start, more => item (start ++ more)

theorem nextElement_append {isFirst : Bool} {input : Bytes} {turn : Turn}
    (success : nextElement isFirst input = .ok turn) (more : Bytes) :
    nextElement isFirst (input ++ more) = .ok (turn.append more) := by
  unfold nextElement at success ⊢
  split at success
  · cases success
  · next shown =>
    simp only [skipSpace_append_of_cons shown]
    split at success
    · next closes =>
      cases success
      rw [if_pos closes, Turn.append]
    next goesOn =>
    rw [if_neg goesOn]
    split at success
    · next first =>
      cases success
      rw [if_pos first, Turn.append, List.cons_append]
    next notFirst =>
    rw [if_neg notFirst]
    split at success
    · next isComma =>
      rw [if_pos isComma]
      split at success
      · cases success
      · next shownNext =>
        simp only [skipSpace_append_of_cons shownNext]
        split at success
        · cases success
        · next proper =>
          cases success
          rw [if_neg proper, Turn.append, List.cons_append]
    · cases success

/-- One round of reading elements. -/
theorem readElements_eq {α : Type} (element : Reader α) (isFirst : Bool) (input : Bytes) :
    readElements element isFirst input =
      match nextElement isFirst input with
      | .error fault => .error fault
      | .ok (.closed rest) => .ok ([], rest)
      | .ok (.item start) =>
        match element.run start with
        | .error fault => .error fault
        | .ok (value, rest) =>
          match readElements element false rest with
          | .error fault => .error fault
          | .ok (values, last) => .ok (value :: values, last) := by
  rw [readElements]
  split
  · next turned => simp only [turned]
  · next turned => simp only [turned]
  · next turned =>
    simp only [turned]
    split
    · next found => simp only [found]
    · next value rest found =>
      cases later : readElements element false rest <;> simp only [found, later]

/-- A list that can be read to its end is not over before. -/
theorem ne_nil_of_readElements {α : Type} {element : Reader α} {isFirst : Bool}
    {input rest : Bytes} {values : List α}
    (success : readElements element isFirst input = .ok (values, rest)) : input ≠ [] := by
  rintro rfl
  have turned : nextElement isFirst [] = .error (.unfinished .list) := rfl
  rw [readElements] at success
  split at success
  · cases success
  · next closed =>
    rw [turned] at closed
    cases closed
  · next item =>
    rw [turned] at item
    cases item

theorem readElements_append {α : Type} {element : Reader α} (isLocal : element.IsLocal)
    {isFirst : Bool} {input rest : Bytes} {values : List α}
    (success : readElements element isFirst input = .ok (values, rest)) (more : Bytes) :
    readElements element isFirst (input ++ more) = .ok (values, rest ++ more) := by
  fun_induction readElements element isFirst input generalizing values rest with
  | case1 => cases success
  | case2 isFirst input last turned =>
      cases success
      exact readElements_closed (nextElement_append turned more)
  | case3 => cases success
  | case4 => cases success
  | case5 isFirst input start turned bound value after found shorter inner last read hypothesis =>
      cases success
      exact readElements_item (nextElement_append turned more)
        (isLocal found (ne_nil_of_readElements read) more) (hypothesis read)

theorem list_endsItself {α : Type} {element : Reader α} (isLocal : element.IsLocal) :
    (list element).EndsItself := by
  intro input value rest success more
  simp only [list] at success ⊢
  split at success
  · cases success
  · next shown =>
    simp only [skipSpace_append_of_cons shown]
    split at success
    · next opens =>
      rw [if_pos opens]
      exact readElements_append isLocal success more
    · cases success

/-! ## Objects -/

theorem nextName_append {isFirst : Bool} {input : Bytes} {turn : Turn}
    (success : nextName isFirst input = .ok turn) (more : Bytes) :
    nextName isFirst (input ++ more) = .ok (turn.append more) := by
  unfold nextName at success ⊢
  split at success
  · cases success
  · next shown =>
    simp only [skipSpace_append_of_cons shown]
    split at success
    · next closes =>
      cases success
      rw [if_pos closes, Turn.append]
    next goesOn =>
    rw [if_neg goesOn]
    split at success
    · next first =>
      rw [if_pos first]
      split at success
      · next isQuote =>
        cases success
        rw [if_pos isQuote, Turn.append]
      · cases success
    next notFirst =>
    rw [if_neg notFirst]
    split at success
    · next isComma =>
      rw [if_pos isComma]
      split at success
      · cases success
      · next shownNext =>
        simp only [skipSpace_append_of_cons shownNext]
        split at success
        · next isQuote =>
          cases success
          rw [if_pos isQuote, Turn.append]
        · split at success <;> cases success
    · cases success

/-- Whether every value that can be taken up is read by a local reader. -/
def Gathering.IsLocal {σ : Type} (gather : Gathering σ) : Prop :=
  ∀ ⦃gathered : σ⦄ ⦃name : String⦄ ⦃value : Reader (σ → σ)⦄,
    gather gathered name = .ok value → value.IsLocal

theorem readMember_append_of_ne_nil {σ : Type} {gather : Gathering σ} (isLocal : gather.IsLocal)
    {gathered next : σ} {input rest : Bytes}
    (success : readMember gather gathered input = .ok (next, rest)) (later : rest ≠ [])
    (more : Bytes) : readMember gather gathered (input ++ more) = .ok (next, rest ++ more) := by
  unfold readMember at success ⊢
  split at success
  · cases success
  · next named =>
    simp only [content_endsItself named more]
    split at success
    · cases success
    · next chosen =>
      split at success
      · cases success
      · next separated =>
        simp only [skipColon_append separated]
        split at success
        · cases success
        · next found =>
          rcases Prod.mk.inj (Except.ok.inj success) with ⟨sameNext, rfl⟩
          simp only [isLocal chosen found later more, sameNext]

/-- An object that can be read to its end is not over before. -/
theorem ne_nil_of_readMembers {σ : Type} {gather : Gathering σ} {isFirst : Bool}
    {gathered result : σ} {input rest : Bytes}
    (success : readMembers gather isFirst gathered input = .ok (result, rest)) : input ≠ [] := by
  rintro rfl
  have turned : nextName isFirst [] = .error (.unfinished .object) := rfl
  rw [readMembers] at success
  split at success
  · cases success
  · next closed =>
    rw [turned] at closed
    cases closed
  · next item =>
    rw [turned] at item
    cases item

theorem readMembers_append {σ : Type} {gather : Gathering σ} (isLocal : gather.IsLocal)
    {isFirst : Bool} {gathered result : σ} {input rest : Bytes}
    (success : readMembers gather isFirst gathered input = .ok (result, rest)) (more : Bytes) :
    readMembers gather isFirst gathered (input ++ more) = .ok (result, rest ++ more) := by
  fun_induction readMembers gather isFirst gathered input with
  | case1 => cases success
  | case2 isFirst gathered input last turned =>
      cases success
      exact readMembers_closed (nextName_append turned more)
  | case3 => cases success
  | case4 isFirst gathered input start turned bound next after found shorter hypothesis =>
      exact readMembers_item (nextName_append turned more)
        (readMember_append_of_ne_nil isLocal found (ne_nil_of_readMembers success) more)
        (hypothesis success)

theorem map_endsItself {α : Type} {value : Reader α} (isLocal : value.IsLocal) :
    (map value).EndsItself := by
  intro input found rest success more
  simp only [map] at success ⊢
  split at success
  · cases success
  · next shown =>
    simp only [skipSpace_append_of_cons shown]
    split at success
    · next opens =>
      rw [if_pos opens]
      refine readMembers_append ?_ success more
      intro gathered name reader chosen
      cases chosen
      exact isLocal.map _
    · cases success

/-! ## Records -/

namespace Record

variable {σ α : Type} {record : Record σ α}

/-- Whether all values of a record's fields are read by local readers. -/
def IsLocal (record : Record σ α) : Prop :=
  ∀ field ∈ record.fields, field.value.IsLocal

theorem IsLocal.gather (isLocal : record.IsLocal) : record.gather.IsLocal := by
  intro draft name value chosen
  unfold Record.gather at chosen
  split at chosen
  · cases chosen
    exact anyValue_isLocal.map _
  · next field known =>
    split at chosen
    · cases chosen
    · cases chosen
      exact isLocal field (List.mem_of_find?_eq_some known)

theorem finishWith_append {draft : σ} {input rest : Bytes} {value : α}
    (success : record.finishWith draft input = .ok (value, rest)) (more : Bytes) :
    record.finishWith draft (input ++ more) = .ok (value, rest ++ more) := by
  unfold finishWith at success ⊢
  split at success
  · cases success
  · cases success
    rfl

theorem readObject_append (isLocal : record.IsLocal) {input rest : Bytes} {value : α}
    (success : record.readObject input = .ok (value, rest)) (more : Bytes) :
    record.readObject (input ++ more) = .ok (value, rest ++ more) := by
  unfold readObject at success ⊢
  split at success
  · cases success
  · next gathered =>
    simp only [readMembers_append isLocal.gather gathered more]
    exact finishWith_append success more

theorem readListEnd_append {input rest : Bytes} (success : readListEnd input = .ok rest)
    (more : Bytes) : readListEnd (input ++ more) = .ok (rest ++ more) := by
  unfold readListEnd at success ⊢
  split at success
  · cases success
  · next shown =>
    simp only [skipSpace_append_of_cons shown]
    split at success
    · next closes =>
      cases success
      rw [if_pos closes]
    · split at success
      · split at success <;> cases success
      · cases success

/-- A list of fields that can be read to its end is not over before. -/
theorem ne_nil_of_readFields {fields : List (Field σ)} {count : Nat} {draft result : σ}
    {input rest : Bytes}
    (success : record.readFields fields count draft input = .ok (result, rest)) : input ≠ [] := by
  rintro rfl
  cases fields <;> cases success

theorem readFields_append {fields : List (Field σ)}
    (isLocal : ∀ field ∈ fields, field.value.IsLocal) {count : Nat} {draft result : σ}
    {input rest : Bytes}
    (success : record.readFields fields count draft input = .ok (result, rest)) (more : Bytes) :
    record.readFields fields count draft (input ++ more) = .ok (result, rest ++ more) := by
  induction fields generalizing count draft input with
  | nil =>
      simp only [readFields] at success ⊢
      split at success
      · cases success
      · next closed =>
        cases success
        simp only [readListEnd_append closed]
  | cons field others hypothesis =>
      simp only [readFields] at success ⊢
      split at success
      · cases success
      · cases success
      · next start turned =>
        simp only [nextElement_append turned, Turn.append]
        split at success
        · cases success
        · next found =>
          have left := ne_nil_of_readFields success
          simp only [isLocal field (List.mem_cons_self ..) found left more]
          exact hypothesis (fun other member => isLocal other (List.mem_cons_of_mem _ member))
            success

theorem readList_append (isLocal : record.IsLocal) {input rest : Bytes} {value : α}
    (success : record.readList input = .ok (value, rest)) (more : Bytes) :
    record.readList (input ++ more) = .ok (value, rest ++ more) := by
  unfold readList at success ⊢
  split at success
  · cases success
  · next gathered =>
    simp only [readFields_append isLocal gathered more]
    exact finishWith_append success more

/-- What follows a record is not looked at. -/
theorem reader_endsItself (isLocal : record.IsLocal) : record.reader.EndsItself := by
  intro input value rest success more
  simp only [reader] at success ⊢
  split at success
  · cases success
  · next shown =>
    simp only [skipSpace_append_of_cons shown]
    split at success
    · next opens =>
      rw [if_pos opens]
      exact readObject_append isLocal success more
    next noObject =>
    rw [if_neg noObject]
    split at success
    · next opens =>
      rw [if_pos opens]
      exact readList_append isLocal success more
    · cases success

end Record

end BundlePacker.Json
