import BundlePacker.Proofs.Json.Lines
import BundlePacker.Proofs.Json.Scan

/-!
# Indentation

The lines of a text can be found without knowing what was written: they stand between line feeds.
A scan that comes to a line knows how many brackets are open before it, and so how far the line has
to be indented.  The main statement is that the lines of the text of a document are the lines of the
document, that a scan places each of them, and that how far they are indented depends on no text and
no name in the document.
-/

namespace BundlePacker.Json

/-- The lines of a text: what stands between its line feeds. -/
def linesOf (text : Bytes) : List Bytes :=
  text.splitOn lineFeed

/-- How many blanks a line begins with. -/
def indentation (line : Bytes) : Nat :=
  (line.takeWhile fun byte => byte = blank).length

/-! ## Lines under a scan -/

namespace Scan

/-- The depth of a line: the brackets open before it, less one when it begins by closing one. -/
def lineDepth (scan : Scan) : Bytes → Int
  | [] => scan.depth
  | byte :: _ => if IsClosing byte then scan.depth - 1 else scan.depth

/--
Whether a line that a scan comes to is indented by four blanks for each open bracket, and by no
more, and has no blank at its end.
-/
structure Places (scan : Scan) (line : Bytes) : Prop where
  outside : scan.zone = .outside
  shape : ∃ (depth : Nat) (text : Bytes), line = List.replicate (4 * depth) blank ++ text ∧
    text ≠ [] ∧ text.head? ≠ some blank ∧ text.getLast? ≠ some blank ∧
    (depth : Int) = scan.lineDepth text

/-- A scan after some lines, with the line feed behind each of them. -/
def afterLines (scan : Scan) (lines : List Bytes) : Scan :=
  scan.after (lines.flatMap fun line => line ++ [lineFeed])

@[simp]
theorem afterLines_nil (scan : Scan) : scan.afterLines [] = scan :=
  rfl

@[simp]
theorem afterLines_cons (scan : Scan) (line : Bytes) (rest : List Bytes) :
    scan.afterLines (line :: rest) = (scan.after (line ++ [lineFeed])).afterLines rest := by
  simp [afterLines]

@[simp]
theorem afterLines_append (scan : Scan) (first second : List Bytes) :
    scan.afterLines (first ++ second) = (scan.afterLines first).afterLines second := by
  simp [afterLines]

/-- Whether a scan places each of some lines when it comes to it. -/
def PlacesAll (scan : Scan) (lines : List Bytes) : Prop :=
  ∀ before line rest, lines = before ++ line :: rest → (scan.afterLines before).Places line

theorem placesAll_nil (scan : Scan) : scan.PlacesAll [] := by
  intro before line rest shape
  simp at shape

theorem placesAll_append {scan : Scan} {first second : List Bytes} (one : scan.PlacesAll first)
    (other : (scan.afterLines first).PlacesAll second) : scan.PlacesAll (first ++ second) := by
  intro before line rest shape
  rcases List.append_eq_append_iff.mp shape with ⟨more, rfl, whole⟩ | ⟨more, whole, rest⟩
  · rw [afterLines_append]
    exact other more line rest whole
  · cases more with
    | nil =>
        rw [List.append_nil] at whole
        have next := other [] line _ rest.symm
        rw [whole] at next
        exact next
    | cons found later =>
        rw [List.cons_append, List.cons.injEq] at rest
        rw [rest.1]
        exact one before found later whole

theorem placesAll_singleton {scan : Scan} {line : Bytes} (places : scan.Places line) :
    scan.PlacesAll [line] := by
  intro before found rest shape
  cases before with
  | nil =>
      cases shape
      exact places
  | cons first others =>
      simp at shape

end Scan

open Scan

/-! ## A scan over the lines -/

/-- Whether what is written has no control character, and no blank at either end. -/
structure IsTidy (text : Bytes) : Prop where
  noControl : ∀ byte ∈ text, ¬ byte < 0x20
  begins : ∃ byte, text.head? = some byte ∧ byte ≠ blank
  ends : ∃ byte, text.getLast? = some byte ∧ byte ≠ blank

theorem isTidy_singleton {byte : UInt8} (visible : ¬ byte < 0x20) (notBlank : byte ≠ blank) :
    IsTidy [byte] where
  noControl := by
    intro other member
    rw [List.mem_singleton.mp member]
    exact visible
  begins := ⟨byte, rfl, notBlank⟩
  ends := ⟨byte, rfl, notBlank⟩

theorem isTidy_quoted (content : String) : IsTidy (Utf8.encode (quoted content)) where
  noControl := noControl_quoted content
  begins := ⟨quote, rfl, by decide⟩
  ends := by
    have closing : Utf8.encode ['"'] = [quote] := rfl
    refine ⟨quote, ?_, by decide⟩
    rw [quoted, Utf8.encode_append, closing, List.getLast?_append]
    rfl

/-- A line is scanned as what is written on it. -/
theorem after_line (depth : Int) (line : Line) {reached : Int}
    (scanned : after ⟨depth, .outside⟩ line.text = ⟨reached, .outside⟩) :
    after ⟨depth, .outside⟩ (line.bytes ++ [lineFeed]) = ⟨reached, .outside⟩ := by
  rw [Line.bytes, after_append, after_append, after_replicate_space, scanned, after_cons,
    step_outside (by decide) (by decide) (by decide), after_nil]

theorem IsTidy.places {text : Bytes} (tidy : IsTidy text) {scan : Scan}
    (outside : scan.zone = .outside) {depth : Nat} (deep : (depth : Int) = scan.lineDepth text) :
    scan.Places (Line.bytes ⟨depth, text⟩) where
  outside := outside
  shape := by
    rcases tidy.begins with ⟨first, begins, notBlank⟩
    rcases tidy.ends with ⟨last, ends, noBlank⟩
    refine ⟨depth, text, rfl, ?_, ?_, ?_, deep⟩
    · intro empty
      rw [empty] at begins
      cases begins
    · rw [begins]
      simpa using notBlank
    · rw [ends]
      simpa using noBlank

/-- A line is indented as its depth says. -/
theorem IsTidy.indentation_bytes {line : Line} (tidy : IsTidy line.text) :
    indentation line.bytes = 4 * line.depth := by
  rcases tidy.begins with ⟨first, begins, notBlank⟩
  rcases List.head?_eq_some_iff.mp begins with ⟨rest, shape⟩
  rw [indentation, Line.bytes, List.takeWhile_append_of_pos, shape,
    List.takeWhile_cons_of_neg (by simpa using notBlank), List.append_nil, List.length_replicate]
  intro byte member
  simpa using List.eq_of_mem_replicate member

/-- What may stand before a value on its line. -/
structure IsLead (lead : Bytes) : Prop where
  noControl : ∀ byte ∈ lead, ¬ byte < 0x20
  neutral : ∀ depth, after ⟨depth, .outside⟩ lead = ⟨depth, .outside⟩
  begins : lead = [] ∨ lead.head? = some quote

/-- What may stand behind a value on its line. -/
structure IsTrail (trail : Bytes) : Prop where
  noControl : ∀ byte ∈ trail, ¬ byte < 0x20
  neutral : ∀ depth, after ⟨depth, .outside⟩ trail = ⟨depth, .outside⟩
  ends : trail = [] ∨ trail.getLast? = some comma

theorem isLead_leadOf (name : Option String) : IsLead (leadOf name) := by
  cases name with
  | none =>
      refine ⟨?_, fun _ => rfl, .inl rfl⟩
      intro byte member
      cases member
  | some name =>
      have behind : Utf8.encode [':', ' '] = [0x3A, blank] := rfl
      have shape : leadOf (some name) = Utf8.encode (quoted name) ++ [0x3A, blank] := by
        rw [leadOf, Utf8.encode_append, behind]
      rw [shape]
      refine ⟨?_, ?_, .inr rfl⟩
      · intro byte member
        rcases List.mem_append.mp member with within | outside
        · exact noControl_quoted name byte within
        · simp only [List.mem_cons, List.not_mem_nil, or_false] at outside
          rcases outside with rfl | rfl <;> decide
      · intro depth
        rw [after_append, after_quoted, after_cons, after_cons, after_nil,
          step_outside (by decide) (by decide) (by decide),
          step_outside (by decide) (by decide) (by decide)]

theorem isTrail_trailOf {α : Type} (rest : List α) : IsTrail (trailOf rest) := by
  cases rest with
  | nil =>
      refine ⟨?_, fun _ => rfl, .inl rfl⟩
      intro byte member
      cases member
  | cons first others =>
      refine ⟨?_, ?_, .inr rfl⟩
      · intro byte member
        rw [List.mem_singleton.mp member]
        decide
      · intro depth
        rw [trailOf, after_cons, after_nil, step_outside (by decide) (by decide) (by decide)]

theorem IsTidy.between {text : Bytes} (tidy : IsTidy text) {lead trail : Bytes}
    (isLead : IsLead lead) (isTrail : IsTrail trail) : IsTidy (lead ++ (text ++ trail)) where
  noControl := by
    intro byte inside
    rcases List.mem_append.mp inside with before | rest
    · exact isLead.noControl byte before
    rcases List.mem_append.mp rest with within | behind
    · exact tidy.noControl byte within
    · exact isTrail.noControl byte behind
  begins := by
    rcases tidy.begins with ⟨first, begins, notBlank⟩
    rcases isLead.begins with rfl | quoted
    · exact ⟨first, by simp [begins], notBlank⟩
    · exact ⟨quote, by simp [quoted], by decide⟩
  ends := by
    rcases tidy.ends with ⟨last, ends, noBlank⟩
    rcases isTrail.ends with rfl | separated
    · exact ⟨last, by simp [ends], noBlank⟩
    · exact ⟨comma, by simp [separated], by decide⟩

/-- The depth of a line that begins by closing nothing. -/
theorem lineDepth_append {lead : Bytes} (isLead : IsLead lead) (scan : Scan) {text : Bytes}
    {first : UInt8} (begins : text.head? = some first) (noClosing : ¬ IsClosing first) :
    scan.lineDepth (lead ++ text) = scan.depth := by
  rcases List.head?_eq_some_iff.mp begins with ⟨rest, rfl⟩
  rcases isLead.begins with rfl | quoted
  · simp [lineDepth, noClosing]
  · rcases List.head?_eq_some_iff.mp quoted with ⟨later, rfl⟩
    have other : ¬ IsClosing quote := by decide
    simp [lineDepth, other]

/-- Whether some lines are tidy, are placed, and close all that they open. -/
structure Indented (depth : Nat) (lines : List Line) : Prop where
  tidy : ∀ line ∈ lines, IsTidy line.text
  placed : PlacesAll ⟨depth, .outside⟩ (lines.map Line.bytes)
  returns : afterLines ⟨depth, .outside⟩ (lines.map Line.bytes) = ⟨depth, .outside⟩

theorem indented_nil (depth : Nat) : Indented depth [] where
  tidy := by
    intro line member
    cases member
  placed := placesAll_nil _
  returns := rfl

theorem Indented.append {depth : Nat} {first second : List Line} (one : Indented depth first)
    (other : Indented depth second) : Indented depth (first ++ second) where
  tidy := by
    intro line member
    rcases List.mem_append.mp member with before | behind
    · exact one.tidy line before
    · exact other.tidy line behind
  placed := by
    rw [List.map_append]
    apply placesAll_append one.placed
    rw [one.returns]
    exact other.placed
  returns := by
    rw [List.map_append, afterLines_append, one.returns, other.returns]

/-- A value that closes all that it opens is one line. -/
theorem IsTidy.indented {text : Bytes} (tidy : IsTidy text) {lead trail : Bytes}
    (isLead : IsLead lead) (isTrail : IsTrail trail) {depth : Nat}
    (neutral : after ⟨depth, .outside⟩ text = ⟨depth, .outside⟩) {first : UInt8}
    (begins : text.head? = some first) (noClosing : ¬ IsClosing first) :
    Indented depth [⟨depth, lead ++ (text ++ trail)⟩] where
  tidy := by
    intro line member
    rw [List.mem_singleton.mp member]
    exact tidy.between isLead isTrail
  placed := by
    apply placesAll_singleton
    apply (tidy.between isLead isTrail).places rfl
    have start : (text ++ trail).head? = some first := by simp [begins]
    exact (lineDepth_append isLead ⟨depth, .outside⟩ start noClosing).symm
  returns := by
    have scanned : after ⟨depth, .outside⟩ (lead ++ (text ++ trail)) = ⟨depth, .outside⟩ := by
      rw [after_append, after_append, isLead.neutral, neutral, isTrail.neutral]
    rw [List.map_singleton, afterLines_cons, after_line _ _ scanned, afterLines_nil]

theorem isTidy_of_opens {byte : UInt8} (opens : IsOpening byte) : IsTidy [byte] := by
  rcases opens with rfl | rfl <;> exact isTidy_singleton (by decide) (by decide)

theorem isTidy_of_closes {byte : UInt8} (closes : IsClosing byte) : IsTidy [byte] := by
  rcases closes with rfl | rfl <;> exact isTidy_singleton (by decide) (by decide)

theorem not_closes_of_opens {byte : UInt8} (opens : IsOpening byte) : ¬ IsClosing byte := by
  rcases opens with rfl | rfl <;> decide

/-- Lines that are one deeper are enclosed by a line that opens and a line that closes. -/
theorem Indented.enclosed {depth : Nat} {inner : List Line} (indented : Indented (depth + 1) inner)
    {lead trail : Bytes} (isLead : IsLead lead) (isTrail : IsTrail trail) {opening closing : UInt8}
    (opens : IsOpening opening) (closes : IsClosing closing) :
    Indented depth
      (⟨depth, lead ++ [opening]⟩ :: (inner ++ [⟨depth, closing :: trail⟩])) := by
  have firstTidy : IsTidy (lead ++ [opening]) :=
    (isTidy_of_opens opens).between isLead (isTrail_trailOf ([] : List Bytes))
  have lastTidy : IsTidy (closing :: trail) :=
    (isTidy_of_closes closes).between (isLead_leadOf none) isTrail
  have opened : after ⟨depth, .outside⟩ (lead ++ [opening]) = ⟨(depth + 1 : Nat), .outside⟩ := by
    rw [after_append, isLead.neutral, after_cons, step_opens opens, after_nil]
    rfl
  have lowered : ((depth + 1 : Nat) : Int) - 1 = depth := by omega
  have closed : after ⟨(depth + 1 : Nat), .outside⟩ (closing :: trail) = ⟨depth, .outside⟩ := by
    rw [after_cons, step_closes closes, lowered, isTrail.neutral]
  constructor
  case tidy =>
    intro line member
    rcases List.mem_cons.mp member with rfl | later
    · exact firstTidy
    rcases List.mem_append.mp later with among | last
    · exact indented.tidy line among
    · rw [List.mem_singleton.mp last]
      exact lastTidy
  case placed =>
    rw [List.map_cons, List.map_append, ← List.singleton_append]
    apply placesAll_append
    · apply placesAll_singleton
      apply firstTidy.places rfl
      have start : [opening].head? = some opening := rfl
      exact (lineDepth_append isLead ⟨depth, .outside⟩ start (not_closes_of_opens opens)).symm
    rw [afterLines_cons, after_line _ _ opened, afterLines_nil]
    apply placesAll_append indented.placed
    rw [indented.returns]
    apply placesAll_singleton
    apply lastTidy.places rfl
    rw [lineDepth, if_pos closes, lowered]
  case returns =>
    rw [List.map_cons, List.map_append, afterLines_cons, after_line _ _ opened, afterLines_append,
      indented.returns, List.map_singleton, afterLines_cons, after_line _ _ closed, afterLines_nil]

/-- A container with nothing in it is one line. -/
theorem indented_empty (depth : Nat) {lead trail : Bytes} (isLead : IsLead lead)
    (isTrail : IsTrail trail) {opening closing : UInt8} (opens : IsOpening opening)
    (closes : IsClosing closing) :
    Indented depth [⟨depth, lead ++ (opening :: closing :: trail)⟩] := by
  have tidy : IsTidy [opening, closing] := by
    rcases isTidy_of_opens opens with ⟨openingVisible, begins, -⟩
    rcases isTidy_of_closes closes with ⟨closingVisible, -, ends⟩
    refine ⟨?_, begins, ends⟩
    intro byte member
    rcases List.mem_cons.mp member with rfl | last
    · exact openingVisible _ (List.mem_cons_self ..)
    · exact closingVisible byte last
  have neutral : after ⟨depth, .outside⟩ [opening, closing] = ⟨depth, .outside⟩ := by
    rw [after_cons, step_opens opens, after_cons, step_closes closes, after_nil,
      Int.add_sub_cancel]
  exact tidy.indented isLead isTrail neutral rfl (not_closes_of_opens opens)

namespace Document

mutual

/-- The lines of a document are where a scan expects them, and close all that they open. -/
theorem indented_lines (depth : Nat) {lead trail : Bytes} (isLead : IsLead lead)
    (isTrail : IsTrail trail) : (document : Document) →
    Indented depth (document.lines depth lead trail)
  | .text content => by
    rw [lines]
    have begins : (Utf8.encode (quoted content)).head? = some quote := rfl
    exact (isTidy_quoted content).indented isLead isTrail (after_quoted depth content) begins
      (by decide)
  | .list [] => by
    rw [lines]
    exact indented_empty depth isLead isTrail (.inr rfl) (.inr rfl)
  | .list (item :: rest) => by
    rw [lines]
    exact (indented_itemLines (depth + 1) (item :: rest)).enclosed isLead isTrail (.inr rfl)
      (.inr rfl)
  | .object [] => by
    rw [lines]
    exact indented_empty depth isLead isTrail (.inl rfl) (.inl rfl)
  | .object (member :: rest) => by
    rw [lines]
    exact (indented_memberLines (depth + 1) (member :: rest)).enclosed isLead isTrail (.inl rfl)
      (.inl rfl)

theorem indented_itemLines (depth : Nat) : (items : List Document) →
    Indented depth (itemLines depth items)
  | [] => indented_nil depth
  | item :: rest => by
    rw [itemLines]
    exact (indented_lines depth (isLead_leadOf none) (isTrail_trailOf rest) item).append
      (indented_itemLines depth rest)

theorem indented_memberLines (depth : Nat) : (members : List (String × Document)) →
    Indented depth (memberLines depth members)
  | [] => indented_nil depth
  | (name, value) :: rest => by
    rw [memberLines]
    exact (indented_lines depth (isLead_leadOf (some name)) (isTrail_trailOf rest) value).append
      (indented_memberLines depth rest)

end

end Document

/-! ## Lines read off the text -/

theorem noFeed_bytes {line : Line} (tidy : IsTidy line.text) : lineFeed ∉ line.bytes := by
  intro member
  rcases List.mem_append.mp member with before | own
  · exact absurd (List.eq_of_mem_replicate before) (by decide)
  · exact tidy.noControl lineFeed own (by decide)

/-- Lines that are joined are found again. -/
theorem linesOf_joinLines {lines : List Line} (nonempty : lines ≠ [])
    (tidy : ∀ line ∈ lines, IsTidy line.text) :
    linesOf (joinLines lines) = lines.map Line.bytes := by
  apply List.splitOn_intercalate
  · intro written member
    rcases List.mem_map.mp member with ⟨line, among, rfl⟩
    exact noFeed_bytes (tidy line among)
  · simpa using nonempty

/-- The only control characters of joined lines are the line feeds between them. -/
theorem eq_lineFeed_of_mem {lines : List Line} (tidy : ∀ line ∈ lines, IsTidy line.text)
    {byte : UInt8} (member : byte ∈ joinLines lines) (control : byte < 0x20) : byte = lineFeed := by
  have shown : ∀ line ∈ lines, byte ∉ line.bytes := by
    intro line among inside
    rcases List.mem_append.mp inside with before | own
    · rw [List.eq_of_mem_replicate before] at control
      exact absurd control (by decide)
    · exact (tidy line among).noControl byte own control
  induction lines with
  | nil =>
      cases member
  | cons line others hypothesis =>
      by_cases last : others = []
      · subst last
        rw [joinLines_singleton] at member
        exact absurd member (shown line (List.mem_cons_self ..))
      · have whole : line :: others = [line] ++ others := rfl
        rw [whole, joinLines_append (by simp) last, joinLines_singleton] at member
        rcases List.mem_append.mp member with own | later
        · exact absurd own (shown line (List.mem_cons_self ..))
        rcases List.mem_cons.mp later with feed | behind
        · exact feed
        · exact hypothesis (fun other among => tidy other (List.mem_cons_of_mem _ among)) behind
            fun other among => shown other (List.mem_cons_of_mem _ among)

/-! ## Depths -/

/-- The depths of the lines of a container, from those of the lines inside. -/
def enclosed (depth : Nat) (inner : List Nat) : List Nat :=
  if inner = [] then [depth] else depth :: (inner ++ [depth])

namespace Document

mutual

/-- The depths of the lines of a document.  No text or name counts for anything here. -/
def depths (depth : Nat) : Document → List Nat
  | .text _ => [depth]
  | .list items => enclosed depth (itemDepths (depth + 1) items)
  | .object members => enclosed depth (memberDepths (depth + 1) members)

/-- The depths of the lines of the items of a list. -/
def itemDepths (depth : Nat) : List Document → List Nat
  | [] => []
  | item :: rest => item.depths depth ++ itemDepths depth rest

/-- The depths of the lines of the members of an object. -/
def memberDepths (depth : Nat) : List (String × Document) → List Nat
  | [] => []
  | (_, value) :: rest => value.depths depth ++ memberDepths depth rest

end

/-- The lines of a container have the depths of what it encloses. -/
theorem map_depth_enclosed {inner : List Line} (nonempty : inner ≠ []) (depth : Nat)
    (first last : Bytes) :
    (⟨depth, first⟩ :: (inner ++ [⟨depth, last⟩]) : List Line).map Line.depth =
      enclosed depth (inner.map Line.depth) := by
  simp [enclosed, nonempty]

mutual

theorem map_depth_lines (depth : Nat) (lead trail : Bytes) : (document : Document) →
    (document.lines depth lead trail).map Line.depth = document.depths depth
  | .text content => rfl
  | .list [] => rfl
  | .list (item :: rest) => by
    rw [lines, map_depth_enclosed (itemLines_ne_nil _ _ _), depths,
      map_depth_itemLines (depth + 1) (item :: rest)]
  | .object [] => rfl
  | .object (member :: rest) => by
    rw [lines, map_depth_enclosed (memberLines_ne_nil _ _ _), depths,
      map_depth_memberLines (depth + 1) (member :: rest)]

theorem map_depth_itemLines (depth : Nat) : (items : List Document) →
    (itemLines depth items).map Line.depth = itemDepths depth items
  | [] => rfl
  | item :: rest => by
    rw [itemLines, List.map_append, map_depth_lines depth _ _ item, map_depth_itemLines depth rest,
      itemDepths]

theorem map_depth_memberLines (depth : Nat) : (members : List (String × Document)) →
    (memberLines depth members).map Line.depth = memberDepths depth members
  | [] => rfl
  | (name, value) :: rest => by
    rw [memberLines, List.map_append, map_depth_lines depth _ _ value,
      map_depth_memberLines depth rest, memberDepths]

end

theorem le_of_mem_enclosed {depth : Nat} {inner : List Nat}
    (deeper : ∀ found ∈ inner, depth + 1 ≤ found) :
    ∀ found ∈ enclosed depth inner, depth ≤ found := by
  intro found member
  rw [enclosed] at member
  split at member
  · exact Nat.le_of_eq (List.mem_singleton.mp member).symm
  · rcases List.mem_cons.mp member with first | later
    · exact Nat.le_of_eq first.symm
    rcases List.mem_append.mp later with inside | last
    · exact Nat.le_of_succ_le (deeper found inside)
    · exact Nat.le_of_eq (List.mem_singleton.mp last).symm

mutual

/-- No line of a document is less deep than the first. -/
theorem le_of_mem_depths (depth : Nat) : (document : Document) →
    ∀ found ∈ document.depths depth, depth ≤ found
  | .text content => by
    intro found member
    exact Nat.le_of_eq (List.mem_singleton.mp member).symm
  | .list items => le_of_mem_enclosed (le_of_mem_itemDepths (depth + 1) items)
  | .object members => le_of_mem_enclosed (le_of_mem_memberDepths (depth + 1) members)

theorem le_of_mem_itemDepths (depth : Nat) : (items : List Document) →
    ∀ found ∈ itemDepths depth items, depth ≤ found
  | [] => by
    intro found member
    cases member
  | item :: rest => by
    intro found member
    rcases List.mem_append.mp member with own | later
    · exact le_of_mem_depths depth item found own
    · exact le_of_mem_itemDepths depth rest found later

theorem le_of_mem_memberDepths (depth : Nat) : (members : List (String × Document)) →
    ∀ found ∈ memberDepths depth members, depth ≤ found
  | [] => by
    intro found member
    cases member
  | (name, value) :: rest => by
    intro found member
    rcases List.mem_append.mp member with own | later
    · exact le_of_mem_depths depth value found own
    · exact le_of_mem_memberDepths depth rest found later

end

theorem itemDepths_map {α : Type} (depth : Nat) (toDocument : α → Document) (values : List α) :
    itemDepths depth (values.map toDocument) =
      values.flatMap fun value => (toDocument value).depths depth := by
  induction values with
  | nil => rfl
  | cons value others hypothesis => rw [List.map_cons, itemDepths, hypothesis, List.flatMap_cons]

theorem memberDepths_map {α : Type} (depth : Nat) (toMember : α → String × Document)
    (values : List α) :
    memberDepths depth (values.map toMember) =
      values.flatMap fun value => (toMember value).2.depths depth := by
  induction values with
  | nil => rfl
  | cons value others hypothesis => rw [List.map_cons, memberDepths, hypothesis, List.flatMap_cons]

/-! ## Whole documents -/

theorem indented_document (document : Document) : Indented 0 (document.lines 0 [] []) :=
  indented_lines 0 (isLead_leadOf none) (isTrail_trailOf ([] : List Document)) document

theorem ofString_render (document : Document) :
    Utf8.ofString (document.render .indented) = joinLines (document.lines 0 [] []) := by
  rw [joinLines_lines, render, Utf8.ofString, String.toList_ofList]
  simp

/-- The lines of the text of a document are the lines of the document. -/
theorem linesOf_render (document : Document) :
    linesOf (Utf8.ofString (document.render .indented)) =
      (document.lines 0 [] []).map Line.bytes := by
  rw [ofString_render]
  exact linesOf_joinLines (lines_ne_nil 0 [] [] document) (indented_document document).tidy

/-- A scan places every line of the text of a document. -/
theorem placesAll_render (document : Document) :
    Scan.start.PlacesAll (linesOf (Utf8.ofString (document.render .indented))) := by
  rw [linesOf_render]
  exact (indented_document document).placed

/-- How far the lines of a text are indented depends on no text or name in the document. -/
theorem map_indentation_render (document : Document) :
    (linesOf (Utf8.ofString (document.render .indented))).map indentation =
      (document.depths 0).map fun depth => 4 * depth := by
  rw [linesOf_render, ← map_depth_lines 0 [] [], List.map_map, List.map_map]
  apply List.map_congr_left
  intro line among
  exact ((indented_document document).tidy line among).indentation_bytes

/-- The text of an object with a member opens on its first line and closes on its last. -/
theorem linesOf_render_object (member : String × Document) (rest : List (String × Document)) :
    ∃ middle, linesOf (Utf8.ofString ((object (member :: rest)).render .indented)) =
        [openCurly] :: (middle ++ [[closeCurly]]) ∧
      ∀ line ∈ middle, 4 ≤ indentation line := by
  have tidy := (indented_document (object (member :: rest))).tidy
  have whole : (object (member :: rest)).lines 0 [] [] =
      ⟨0, [openCurly]⟩ :: (memberLines 1 (member :: rest) ++ [⟨0, [closeCurly]⟩]) := by
    rw [lines]
    rfl
  refine ⟨(memberLines 1 (member :: rest)).map Line.bytes, ?_, ?_⟩
  · rw [linesOf_render, whole, List.map_cons, List.map_append]
    rfl
  · intro written inside
    rcases List.mem_map.mp inside with ⟨line, among, rfl⟩
    have own : IsTidy line.text := by
      apply tidy line
      rw [whole]
      exact List.mem_cons_of_mem _ (List.mem_append_left _ among)
    have deep : 1 ≤ line.depth := by
      apply le_of_mem_memberDepths 1 (member :: rest)
      rw [← map_depth_memberLines]
      exact List.mem_map_of_mem among
    rw [own.indentation_bytes]
    omega

end Document

end BundlePacker.Json
