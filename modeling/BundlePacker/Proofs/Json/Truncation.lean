import BundlePacker.Proofs.Json.Object

/-!
# Texts that are cut off

Where the end of a text is cut off, a reader can not tell what it would have read.  It either asks
for more than there is, and then something is unfinished, or it has what it needs already.  What it
gives back is then the same, and only what it leaves over is shorter.

This is stated of two outcomes of one step of reading, and the steps are put together one after the
other.  The main statements are about texts and about values that are known by name.
-/

namespace BundlePacker.Json

/-- What a step of reading gives back, with the rest of the text in it. -/
class Leftover (ρ : Type) where
  /-- The same with more bytes at the end of the rest. -/
  extend : ρ → Bytes → ρ

instance : Leftover Bytes where
  extend rest more := rest ++ more

instance {α : Type} : Leftover (α × Bytes) where
  extend result more := (result.1, result.2 ++ more)

/-- How the outcome of a step on a text without its end is related to that on the whole text. -/
inductive Truncates {ρ : Type} [Leftover ρ] (back : Bytes) :
    Except ReadError ρ → Except ReadError ρ → Prop
  /-- The step fails on the whole text, and so nothing is said. -/
  | fails (cut : Except ReadError ρ) (fault : ReadError) :
      Truncates back cut (.error fault)
  /-- The step needs more than is left. -/
  | unfinished (inside : Unfinished) (whole : Except ReadError ρ) :
      Truncates back (.error (.unfinished inside)) whole
  /-- The step does not come to the end that is cut off. -/
  | same (left : ρ) :
      Truncates back (.ok left) (.ok (Leftover.extend left back))

theorem Truncates.value {α : Type} {back : Bytes} (value : α) (rest : Bytes) :
    Truncates back (.ok (value, rest)) (.ok (value, rest ++ back)) :=
  .same (value, rest)

/-- Whether a reader notices where a text is cut off inside its value. -/
def Reader.NoticesCuts {α : Type} (reader : Reader α) : Prop :=
  ∀ front back, Truncates back (reader.run front) (reader.run (front ++ back))

theorem Reader.NoticesCuts.map {α β : Type} {reader : Reader α} (notices : reader.NoticesCuts)
    (transform : α → β) : (reader.map transform).NoticesCuts := by
  intro front back
  simp only [Reader.map]
  have step := notices front back
  generalize reader.run front = cut, reader.run (front ++ back) = whole at step ⊢
  cases step with
  | fails => exact .fails ..
  | unfinished => exact .unfinished ..
  | same left => exact .value (transform left.1) left.2

/-! ## Blanks and words -/

/-- The first byte behind the blanks is the same, unless it has been cut off. -/
theorem truncates_first {ρ : Type} [Leftover ρ] {front back : Bytes} (inside : Unfinished)
    {next : UInt8 → Bytes → Except ReadError ρ}
    (later : ∀ byte rest, skipSpace front = byte :: rest →
      Truncates back (next byte rest) (next byte (rest ++ back))) :
    Truncates back
      (match skipSpace front with
        | [] => .error (.unfinished inside)
        | byte :: rest => next byte rest)
      (match skipSpace (front ++ back) with
        | [] => .error (.unfinished inside)
        | byte :: rest => next byte rest) := by
  cases shown : skipSpace front with
  | nil =>
      exact .unfinished inside _
  | cons byte rest =>
      rw [skipSpace_append_of_cons shown]
      exact later byte rest shown

theorem word_truncates (letters front back : Bytes) :
    Truncates back (word letters front) (word letters (front ++ back)) := by
  induction letters generalizing front with
  | nil =>
      exact .same front
  | cons letter letters hypothesis =>
      cases front with
      | nil =>
          exact .unfinished ..
      | cons byte front =>
          simp only [List.cons_append, word]
          split
          · exact hypothesis front
          · exact .fails ..

theorem skipColon_truncates (front back : Bytes) :
    Truncates back (skipColon front) (skipColon (front ++ back)) := by
  simp only [skipColon]
  refine truncates_first .object fun byte rest _ => ?_
  split
  · exact .same rest
  · exact .fails ..

/-! ## Texts between quotes -/

theorem readCode_truncates (front back : Bytes) :
    Truncates back (readCode front) (readCode (front ++ back)) := by
  rcases front with _ | ⟨first, _ | ⟨second, _ | ⟨third, _ | ⟨fourth, rest⟩⟩⟩⟩
  case cons.cons.cons.cons =>
    simp only [List.cons_append, readCode]
    cases hexCode? first second third fourth with
    | none => exact .fails ..
    | some code => exact .value code rest
  all_goals exact .unfinished ..

theorem readPairMark_truncates (front back : Bytes) :
    Truncates back (readPairMark front) (readPairMark (front ++ back)) := by
  rcases front with _ | ⟨first, _ | ⟨second, rest⟩⟩
  case nil =>
    exact .unfinished ..
  case cons.nil =>
    by_cases mark : first = backslash
    · simp only [readPairMark, if_pos mark]
      exact .unfinished ..
    · have fails : readPairMark ([first] ++ back) = .error .escapeCutShort := by
        cases back <;> simp [readPairMark, mark]
      rw [fails]
      exact .fails ..
  case cons.cons =>
    simp only [List.cons_append, readPairMark]
    split
    · exact .same rest
    · exact .fails ..

theorem readLowSurrogate_truncates (high : Nat) (front back : Bytes) :
    Truncates back (readLowSurrogate high front) (readLowSurrogate high (front ++ back)) := by
  simp only [readLowSurrogate]
  have mark := readPairMark_truncates front back
  generalize readPairMark front = cut, readPairMark (front ++ back) = whole at mark ⊢
  cases mark with
  | fails => exact .fails ..
  | unfinished => exact .unfinished ..
  | same digits =>
      have code := readCode_truncates digits back
      simp only [Leftover.extend]
      generalize readCode digits = cut, readCode (digits ++ back) = whole at code ⊢
      cases code with
      | fails => exact .fails ..
      | unfinished => exact .unfinished ..
      | same left =>
          simp only [Leftover.extend]
          split
          · exact .value _ left.2
          · exact .fails ..

theorem readCodeEscape_truncates (front back : Bytes) :
    Truncates back (readCodeEscape front) (readCodeEscape (front ++ back)) := by
  simp only [readCodeEscape]
  have code := readCode_truncates front back
  generalize readCode front = cut, readCode (front ++ back) = whole at code ⊢
  cases code with
  | fails => exact .fails ..
  | unfinished => exact .unfinished ..
  | same left =>
      simp only [Leftover.extend]
      split
      · exact .fails ..
      split
      · exact readLowSurrogate_truncates left.1 left.2 back
      · exact .value _ left.2

theorem escape_noticesCuts : escape.NoticesCuts := by
  intro front back
  cases front with
  | nil =>
      exact .unfinished ..
  | cons letter rest =>
      simp only [escape, List.cons_append, readEscape]
      cases letterEscape? letter with
      | some byte =>
          exact .value [byte] rest
      | none =>
          by_cases isCode : letter = codeLetter
          · simp only [if_pos isCode]
            exact readCodeEscape_truncates rest back
          · simp only [if_neg isCode]
            exact .fails ..

/-- One step of reading a text. -/
theorem readContent_cons (escape : Reader Bytes) (byte : UInt8) (input : Bytes) :
    readContent escape (byte :: input) =
      if byte = quote then .ok ([], input)
      else if byte = backslash then
        match escape.run input with
        | .error fault => .error fault
        | .ok (decoded, after) =>
          match readContent escape after with
          | .error fault => .error fault
          | .ok (content, last) => .ok (decoded ++ content, last)
      else if byte < 0x20 then .error .controlCharacter
      else
        match readContent escape input with
        | .error fault => .error fault
        | .ok (content, last) => .ok (byte :: content, last) := by
  rw [readContent]
  split
  · rfl
  split
  · split
    · next found => simp only [found]
    · next decoded after found =>
      cases later : readContent escape after <;> simp only [found, later]
  · rfl

theorem readContent_truncates {escape : Reader Bytes} (notices : escape.NoticesCuts)
    (front back : Bytes) :
    Truncates back (readContent escape front) (readContent escape (front ++ back)) := by
  match front with
  | [] =>
      rw [readContent]
      exact .unfinished ..
  | byte :: rest =>
      rw [List.cons_append, readContent_cons, readContent_cons]
      split
      · exact .value [] rest
      split
      · have step := notices rest back
        generalize found : escape.run rest = cut, escape.run (rest ++ back) = whole at step ⊢
        cases step with
        | fails => exact .fails ..
        | unfinished => exact .unfinished ..
        | same left =>
            have shorter := escape.shrinks found
            have later := readContent_truncates notices left.2 back
            simp only [Leftover.extend]
            generalize readContent escape left.2 = cut,
              readContent escape (left.2 ++ back) = whole at later ⊢
            cases later with
            | fails => exact .fails ..
            | unfinished => exact .unfinished ..
            | same last => exact .value (left.1 ++ last.1) last.2
      split
      · exact .fails ..
      · have later := readContent_truncates notices rest back
        generalize readContent escape rest = cut, readContent escape (rest ++ back) = whole
          at later ⊢
        cases later with
        | fails => exact .fails ..
        | unfinished => exact .unfinished ..
        | same last => exact .value (byte :: last.1) last.2
termination_by front.length

theorem content_noticesCuts : content.NoticesCuts := by
  intro front back
  simp only [content]
  have step := readContent_truncates escape_noticesCuts front back
  generalize readContent escape front = cut, readContent escape (front ++ back) = whole at step ⊢
  cases step with
  | fails => exact .fails ..
  | unfinished => exact .unfinished ..
  | same left =>
      simp only [Leftover.extend]
      split
      · exact .value _ left.2
      · exact .fails ..

theorem text_noticesCuts : text.NoticesCuts := by
  intro front back
  simp only [text]
  refine truncates_first .value fun byte rest _ => ?_
  split
  · exact content_noticesCuts rest back
  · exact .fails ..

/-! ## Values that are known by name -/

section

variable {α : Type} (known : List (String × α))

theorem readChoice_truncates (front back : Bytes) :
    Truncates back (readChoice known front) (readChoice known (front ++ back)) := by
  simp only [readChoice]
  have step := content_noticesCuts front back
  generalize content.run front = cut, content.run (front ++ back) = whole at step ⊢
  cases step with
  | fails => exact .fails ..
  | unfinished => exact .unfinished ..
  | same left =>
      simp only [Leftover.extend]
      cases choose known left.1 with
      | error fault => exact .fails ..
      | ok meaning => exact .value meaning left.2

theorem readNullAndClose_truncates (front back : Bytes) :
    Truncates back (readNullAndClose front) (readNullAndClose (front ++ back)) := by
  simp only [readNullAndClose]
  refine truncates_first .value fun byte rest _ => ?_
  split
  · have null := word_truncates [0x75, 0x6C, 0x6C] rest back
    generalize word [0x75, 0x6C, 0x6C] rest = cut,
      word [0x75, 0x6C, 0x6C] (rest ++ back) = whole at null ⊢
    cases null with
    | fails => exact .fails ..
    | unfinished => exact .unfinished ..
    | same after =>
        refine truncates_first .object fun last following _ => ?_
        split
        · exact .same following
        · exact .fails ..
  · exact .fails ..

theorem readTagged_truncates (front back : Bytes) :
    Truncates back (readTagged known front) (readTagged known (front ++ back)) := by
  simp only [readTagged]
  refine truncates_first .object fun byte rest _ => ?_
  split
  · have name := readChoice_truncates known rest back
    generalize readChoice known rest = cut, readChoice known (rest ++ back) = whole at name ⊢
    cases name with
    | fails => exact .fails ..
    | unfinished => exact .unfinished ..
    | same named =>
        have separator := skipColon_truncates named.2 back
        simp only [Leftover.extend]
        generalize skipColon named.2 = cut, skipColon (named.2 ++ back) = whole at separator ⊢
        cases separator with
        | fails => exact .fails ..
        | unfinished => exact .unfinished ..
        | same start =>
            have closed := readNullAndClose_truncates start back
            simp only [Leftover.extend]
            generalize readNullAndClose start = cut,
              readNullAndClose (start ++ back) = whole at closed ⊢
            cases closed with
            | fails => exact .fails ..
            | unfinished => exact .unfinished ..
            | same last => exact .value named.1 last
  · split <;> exact .fails ..

theorem oneOf_noticesCuts : (oneOf known).NoticesCuts := by
  intro front back
  simp only [oneOf]
  refine truncates_first .value fun byte rest _ => ?_
  split
  · exact readTagged_truncates known rest back
  split
  · exact readChoice_truncates known rest back
  · exact .fails ..

end

end BundlePacker.Json
