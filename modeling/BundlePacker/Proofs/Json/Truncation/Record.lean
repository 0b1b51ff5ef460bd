import BundlePacker.Proofs.Json.Known
import BundlePacker.Proofs.Json.Truncation

/-!
# Lists and objects that are cut off

A list or an object reads its elements or members one after the other, and the end of the text is
met either in one of them or between two.

The main statements say that lists, maps and records notice where they are cut off if the readers of
their parts do, and if no value is skipped: a number that is skipped may be taken for a faulty one
when its end is missing.
-/

namespace BundlePacker.Json

instance : Leftover Turn where
  extend := Turn.append

/-! ## Lists -/

theorem nextElement_truncates (isFirst : Bool) (front back : Bytes) :
    Truncates back (nextElement isFirst front) (nextElement isFirst (front ++ back)) := by
  simp only [nextElement]
  refine truncates_first .list fun byte rest _ => ?_
  split
  · exact .same (Turn.closed rest)
  split
  · exact .same (Turn.item (byte :: rest))
  split
  · refine truncates_first .value fun next after _ => ?_
    split
    · exact .fails ..
    · exact .same (Turn.item (next :: after))
  · exact .fails ..

theorem readElements_truncates {α : Type} {element : Reader α} (notices : element.NoticesCuts)
    (isFirst : Bool) (front back : Bytes) :
    Truncates back (readElements element isFirst front)
      (readElements element isFirst (front ++ back)) := by
  rw [readElements_eq, readElements_eq]
  have turn := nextElement_truncates isFirst front back
  generalize turned : nextElement isFirst front = cut, nextElement isFirst (front ++ back) = whole
    at turn ⊢
  cases turn with
  | fails => exact .fails ..
  | unfinished => exact .unfinished ..
  | same turn =>
      cases turn with
      | closed rest => exact .value [] rest
      | item start =>
          have bound : start.length ≤ front.length := length_nextElement_le turned
          have step := notices start back
          simp only [Leftover.extend, Turn.append]
          generalize found : element.run start = cut, element.run (start ++ back) = whole at step ⊢
          cases step with
          | fails => exact .fails ..
          | unfinished => exact .unfinished ..
          | same left =>
              have shorter := element.shrinks found
              have later := readElements_truncates notices false left.2 back
              simp only [Leftover.extend]
              generalize readElements element false left.2 = cut,
                readElements element false (left.2 ++ back) = whole at later ⊢
              cases later with
              | fails => exact .fails ..
              | unfinished => exact .unfinished ..
              | same last => exact .value (left.1 :: last.1) last.2
termination_by front.length

theorem list_noticesCuts {α : Type} {element : Reader α} (notices : element.NoticesCuts) :
    (list element).NoticesCuts := by
  intro front back
  simp only [list]
  refine truncates_first .value fun byte rest _ => ?_
  split
  · exact readElements_truncates notices true rest back
  · exact .fails ..

/-! ## Objects -/

theorem nextName_truncates (isFirst : Bool) (front back : Bytes) :
    Truncates back (nextName isFirst front) (nextName isFirst (front ++ back)) := by
  simp only [nextName]
  refine truncates_first .object fun byte rest _ => ?_
  split
  · exact .same (Turn.closed rest)
  split
  · split
    · exact .same (Turn.item rest)
    · exact .fails ..
  split
  · refine truncates_first .value fun next after _ => ?_
    split
    · exact .same (Turn.item after)
    · split <;> exact .fails ..
  · exact .fails ..

/-- Whether the values of all members that are taken up notice where they are cut off. -/
def Gathering.NoticesCuts {σ : Type} (gather : Gathering σ) : Prop :=
  ∀ ⦃gathered : σ⦄ ⦃name : String⦄ ⦃value : Reader (σ → σ)⦄,
    gather gathered name = .ok value → value.NoticesCuts

section

variable {σ : Type} {gather : Gathering σ} (notices : gather.NoticesCuts)

include notices

theorem readMember_truncates (gathered : σ) (front back : Bytes) :
    Truncates back (readMember gather gathered front)
      (readMember gather gathered (front ++ back)) := by
  simp only [readMember]
  have name := content_noticesCuts front back
  generalize content.run front = cut, content.run (front ++ back) = whole at name ⊢
  cases name with
  | fails => exact .fails ..
  | unfinished => exact .unfinished ..
  | same named =>
      simp only [Leftover.extend]
      cases chosen : gather gathered named.1 with
      | error fault => exact .fails ..
      | ok reader =>
          have separator := skipColon_truncates named.2 back
          simp only
          generalize skipColon named.2 = cut, skipColon (named.2 ++ back) = whole at separator ⊢
          cases separator with
          | fails => exact .fails ..
          | unfinished => exact .unfinished ..
          | same start =>
              have value := notices chosen start back
              simp only [Leftover.extend]
              generalize reader.run start = cut, reader.run (start ++ back) = whole at value ⊢
              cases value with
              | fails => exact .fails ..
              | unfinished => exact .unfinished ..
              | same left => exact .value (left.1 gathered) left.2

theorem readMembers_truncates (isFirst : Bool) (gathered : σ) (front back : Bytes) :
    Truncates back (readMembers gather isFirst gathered front)
      (readMembers gather isFirst gathered (front ++ back)) := by
  rw [readMembers_eq, readMembers_eq]
  have turn := nextName_truncates isFirst front back
  generalize turned : nextName isFirst front = cut, nextName isFirst (front ++ back) = whole
    at turn ⊢
  cases turn with
  | fails => exact .fails ..
  | unfinished => exact .unfinished ..
  | same turn =>
      cases turn with
      | closed rest => exact .value gathered rest
      | item start =>
          have bound : start.length ≤ front.length := length_nextName_le turned
          have step := readMember_truncates notices gathered start back
          simp only [Leftover.extend, Turn.append]
          generalize found : readMember gather gathered start = cut,
            readMember gather gathered (start ++ back) = whole at step ⊢
          cases step with
          | fails => exact .fails ..
          | unfinished => exact .unfinished ..
          | same left =>
              have shorter := length_readMember_lt found
              exact readMembers_truncates false left.1 left.2 back
termination_by front.length

end

theorem map_noticesCuts {α : Type} {value : Reader α} (notices : value.NoticesCuts) :
    (map value).NoticesCuts := by
  intro front back
  simp only [map]
  refine truncates_first .value fun byte rest _ => ?_
  split
  · refine readMembers_truncates (fun gathered name reader chosen => ?_) true ∅ rest back
    cases chosen
    exact notices.map _
  · exact .fails ..

/-! ## Records -/

namespace Record

variable {σ α : Type} {record : Record σ α}

/-- Whether the values of all fields notice where they are cut off. -/
def NoticesCuts (record : Record σ α) : Prop :=
  ∀ field ∈ record.fields, field.value.NoticesCuts

/-- No value is skipped where the names of an object are known. -/
theorem NoticesCuts.gatherKnown (notices : record.NoticesCuts) :
    record.gatherKnown.NoticesCuts := by
  intro draft name value chosen
  unfold Record.gatherKnown at chosen
  split at chosen
  · next known =>
    rcases exists_field known with ⟨field, inside, -, found⟩
    simp only [gather, found] at chosen
    split at chosen
    · cases chosen
    · cases chosen
      exact notices field inside
  · cases chosen

theorem finishWith_truncates (draft : σ) (front back : Bytes) :
    Truncates back (record.finishWith draft front) (record.finishWith draft (front ++ back)) := by
  unfold finishWith
  split
  · exact .fails ..
  · exact .value _ front

theorem readListEnd_truncates (front back : Bytes) :
    Truncates back (readListEnd front) (readListEnd (front ++ back)) := by
  simp only [readListEnd]
  refine truncates_first .list fun byte rest _ => ?_
  split
  · exact .same rest
  split
  · split <;> split <;> exact .fails ..
  · exact .fails ..

theorem readFields_truncates (record : Record σ α) {fields : List (Field σ)}
    (notices : ∀ field ∈ fields, field.value.NoticesCuts) (count : Nat) (draft : σ)
    (front back : Bytes) :
    Truncates back (record.readFields fields count draft front)
      (record.readFields fields count draft (front ++ back)) := by
  induction fields generalizing count draft front with
  | nil =>
      simp only [readFields]
      have step := readListEnd_truncates front back
      generalize readListEnd front = cut, readListEnd (front ++ back) = whole at step ⊢
      cases step with
      | fails => exact .fails ..
      | unfinished => exact .unfinished ..
      | same rest => exact .value draft rest
  | cons field others hypothesis =>
      simp only [readFields]
      have turn := nextElement_truncates (count = 0) front back
      generalize nextElement _ front = cut, nextElement _ (front ++ back) = whole at turn ⊢
      cases turn with
      | fails => exact .fails ..
      | unfinished => exact .unfinished ..
      | same turn =>
          cases turn with
          | closed rest => exact .fails ..
          | item start =>
              have step := notices field (List.mem_cons_self ..) start back
              simp only [Leftover.extend, Turn.append]
              generalize field.value.run start = cut, field.value.run (start ++ back) = whole
                at step ⊢
              cases step with
              | fails => exact .fails ..
              | unfinished => exact .unfinished ..
              | same left =>
                  have later : ∀ other ∈ others, other.value.NoticesCuts := fun other inside =>
                    notices other (List.mem_cons_of_mem _ inside)
                  exact hypothesis later (count + 1) (left.1 draft) left.2

theorem readList_truncates (notices : record.NoticesCuts) (front back : Bytes) :
    Truncates back (record.readList front) (record.readList (front ++ back)) := by
  have step := readFields_truncates record notices 0 record.blank front back
  simp only [readList]
  generalize record.readFields _ _ _ front = cut, record.readFields _ _ _ (front ++ back) = whole
    at step ⊢
  cases step with
  | fails => exact .fails ..
  | unfinished => exact .unfinished ..
  | same left => exact finishWith_truncates left.1 left.2 back

theorem readKnown_truncates (notices : record.NoticesCuts) (front back : Bytes) :
    Truncates back (record.readKnown front) (record.readKnown (front ++ back)) := by
  have step := readMembers_truncates notices.gatherKnown true record.blank front back
  simp only [readKnown]
  generalize readMembers _ _ _ front = cut, readMembers _ _ _ (front ++ back) = whole at step ⊢
  cases step with
  | fails => exact .fails ..
  | unfinished => exact .unfinished ..
  | same left => exact finishWith_truncates left.1 left.2 back

theorem knownReader_noticesCuts (notices : record.NoticesCuts) :
    record.knownReader.NoticesCuts := by
  intro front back
  simp only [knownReader]
  refine truncates_first .value fun byte rest _ => ?_
  split
  · exact readKnown_truncates notices rest back
  split
  · exact readList_truncates notices rest back
  · exact .fails ..

end Record

end BundlePacker.Json
