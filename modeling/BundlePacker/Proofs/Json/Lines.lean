import BundlePacker.Json.Document
import BundlePacker.Json.Reader

/-!
# The lines of an indented document

A document in the indented layout is a list of lines, each at a depth of its own.  The lines follow
the document: a text or an empty container is one line, and any other container encloses the lines
of what it contains between a line that opens it and one that closes it.  The main statement is that
the text of a document is its lines with line feeds between them.
-/

namespace BundlePacker.Json

/-- The byte that ends a line. -/
abbrev lineFeed : UInt8 :=
  0x0A

/-- The byte that lines are indented with. -/
abbrev blank : UInt8 :=
  0x20

/-! ## Lines of documents -/

/-- A line of a document. -/
structure Line where
  depth : Nat
  /-- What is written on the line, behind its blanks. -/
  text : Bytes

/-- A line as it is written. -/
def Line.bytes (line : Line) : Bytes :=
  List.replicate (4 * line.depth) blank ++ line.text

/-- Lines as they are written, with a line feed between any two. -/
def joinLines (lines : List Line) : Bytes :=
  [lineFeed].intercalate (lines.map Line.bytes)

theorem joinLines_append {first second : List Line} (nonempty : first ≠ []) (more : second ≠ []) :
    joinLines (first ++ second) = joinLines first ++ lineFeed :: joinLines second := by
  induction first with
  | nil =>
      exact absurd rfl nonempty
  | cons line others hypothesis =>
      by_cases last : others = []
      · subst last
        simp [joinLines, List.intercalate_cons_of_ne_nil, more]
      · have later := hypothesis last
        simp only [joinLines, List.map_append] at later
        simp [joinLines, List.intercalate_cons_of_ne_nil, last, later]

theorem joinLines_singleton (line : Line) : joinLines [line] = line.bytes := by
  simp [joinLines]

/-- What is written before a value on its line: nothing, or the name of a member. -/
def leadOf : Option String → Bytes
  | none => []
  | some name => Utf8.encode (quoted name ++ [':', ' '])

/-- What is written behind a value: a comma, when something follows. -/
def trailOf {α : Type} : List α → Bytes
  | [] => []
  | _ :: _ => [comma]

namespace Document

mutual

/-- The lines of a document, with what stands before it on the first and behind it on the last. -/
def lines (depth : Nat) (lead trail : Bytes) : Document → List Line
  | .text content => [⟨depth, lead ++ (Utf8.encode (quoted content) ++ trail)⟩]
  | .list [] => [⟨depth, lead ++ (openSquare :: closeSquare :: trail)⟩]
  | .list (item :: rest) =>
    ⟨depth, lead ++ [openSquare]⟩ ::
      (itemLines (depth + 1) (item :: rest) ++ [⟨depth, closeSquare :: trail⟩])
  | .object [] => [⟨depth, lead ++ (openCurly :: closeCurly :: trail)⟩]
  | .object (member :: rest) =>
    ⟨depth, lead ++ [openCurly]⟩ ::
      (memberLines (depth + 1) (member :: rest) ++ [⟨depth, closeCurly :: trail⟩])

/-- The lines of the items of a list, or of those that are left of it. -/
def itemLines (depth : Nat) : List Document → List Line
  | [] => []
  | item :: rest => item.lines depth (leadOf none) (trailOf rest) ++ itemLines depth rest

/-- The lines of the members of an object, or of those that are left of it. -/
def memberLines (depth : Nat) : List (String × Document) → List Line
  | [] => []
  | (name, value) :: rest =>
    value.lines depth (leadOf (some name)) (trailOf rest) ++ memberLines depth rest

end

theorem lines_ne_nil (depth : Nat) (lead trail : Bytes) (document : Document) :
    document.lines depth lead trail ≠ [] := by
  rcases document with content | (- | ⟨item, rest⟩) | (- | ⟨member, rest⟩) <;> simp [lines]

theorem itemLines_ne_nil (depth : Nat) (item : Document) (rest : List Document) :
    itemLines depth (item :: rest) ≠ [] := by
  rw [itemLines]
  exact List.append_ne_nil_of_left_ne_nil (lines_ne_nil _ _ _ _) _

theorem memberLines_ne_nil (depth : Nat) (member : String × Document)
    (rest : List (String × Document)) : memberLines depth (member :: rest) ≠ [] := by
  rw [memberLines]
  exact List.append_ne_nil_of_left_ne_nil (lines_ne_nil _ _ _ _) _

/-! ## The text of a document is its lines -/

theorem encode_lineBreak (depth : Nat) :
    Utf8.encode (Layout.indented.lineBreak depth) =
      lineFeed :: List.replicate (4 * depth) blank := by
  have blanks : ∀ count, Utf8.encode (List.replicate count ' ') = List.replicate count blank := by
    intro count
    induction count with
    | zero => rfl
    | succ count hypothesis =>
        rw [List.replicate_succ, Utf8.encode_cons, hypothesis, List.replicate_succ]
        rfl
  rw [Layout.indented, Utf8.encode_cons, blanks]
  rfl

/-- The lines of a container: the one that opens it, those inside, and the one that closes it. -/
theorem joinLines_enclosed {inner : List Line} (nonempty : inner ≠ []) (depth : Nat)
    (first last : Bytes) :
    joinLines (⟨depth, first⟩ :: (inner ++ [⟨depth, last⟩])) =
      List.replicate (4 * depth) blank ++ first ++ lineFeed :: joinLines inner ++
        lineFeed :: List.replicate (4 * depth) blank ++ last := by
  have whole : (⟨depth, first⟩ :: (inner ++ [⟨depth, last⟩]) : List Line) =
      [⟨depth, first⟩] ++ (inner ++ [⟨depth, last⟩]) := rfl
  rw [whole, joinLines_append (by simp) (by simp), joinLines_append nonempty (by simp),
    joinLines_singleton, joinLines_singleton]
  simp [Line.bytes]

/-- The items of a list as they are written behind the line break. -/
def itemsText (depth : Nat) : List Document → Bytes
  | [] => []
  | item :: rest =>
    List.replicate (4 * depth) blank ++
      (Utf8.encode (item.write .indented depth) ++ Utf8.encode (writeItems .indented depth rest))

/-- The members of an object as they are written behind the line break. -/
def membersText (depth : Nat) : List (String × Document) → Bytes
  | [] => []
  | (name, value) :: rest =>
    List.replicate (4 * depth) blank ++ (leadOf (some name) ++
      (Utf8.encode (value.write .indented depth) ++
        Utf8.encode (writeMembers .indented depth rest)))

mutual

/-- A document is written as its lines. -/
theorem joinLines_lines (depth : Nat) (lead trail : Bytes) : (document : Document) →
    joinLines (document.lines depth lead trail) =
      List.replicate (4 * depth) blank ++
        (lead ++ (Utf8.encode (document.write .indented depth) ++ trail))
  | .text content => by
    rw [lines, joinLines_singleton, write]
    rfl
  | .list [] => by
    rw [lines, joinLines_singleton, write]
    rfl
  | .list (item :: rest) => by
    have inner := joinLines_itemLines (depth + 1) (item :: rest)
    have opening : Utf8.encodeChar '[' = [openSquare] := rfl
    have closing : Utf8.encodeChar ']' = [closeSquare] := rfl
    rw [lines, joinLines_enclosed (itemLines_ne_nil _ _ _), inner]
    simp [itemsText, write, encode_lineBreak, opening, closing]
  | .object [] => by
    rw [lines, joinLines_singleton, write]
    rfl
  | .object ((name, value) :: rest) => by
    have inner := joinLines_memberLines (depth + 1) ((name, value) :: rest)
    have opening : Utf8.encodeChar '\x7b' = [openCurly] := rfl
    have closing : Utf8.encodeChar '\x7d' = [closeCurly] := rfl
    have colon : Layout.indented.colon = [':', ' '] := rfl
    rw [lines, joinLines_enclosed (memberLines_ne_nil _ _ _), inner]
    simp [membersText, write, leadOf, encode_lineBreak, opening, closing, colon]

theorem joinLines_itemLines (depth : Nat) : (items : List Document) →
    joinLines (itemLines depth items) = itemsText depth items
  | [] => rfl
  | [item] => by
    have own := joinLines_lines depth (leadOf none) (trailOf ([] : List Document)) item
    simpa [itemLines, itemsText, leadOf, trailOf, writeItems] using own
  | item :: second :: rest => by
    have own := joinLines_lines depth (leadOf none) (trailOf (second :: rest)) item
    have later := joinLines_itemLines depth (second :: rest)
    have between : Utf8.encodeChar ',' = [comma] := rfl
    rw [itemLines, joinLines_append (lines_ne_nil _ _ _ _) (itemLines_ne_nil _ _ _), own, later]
    simp [itemsText, leadOf, trailOf, writeItems, encode_lineBreak, between]

theorem joinLines_memberLines (depth : Nat) : (members : List (String × Document)) →
    joinLines (memberLines depth members) = membersText depth members
  | [] => rfl
  | [(name, value)] => by
    have own := joinLines_lines depth (leadOf (some name))
      (trailOf ([] : List (String × Document))) value
    simpa [memberLines, membersText, trailOf, writeMembers] using own
  | (name, value) :: (second, found) :: rest => by
    have own := joinLines_lines depth (leadOf (some name)) (trailOf ((second, found) :: rest)) value
    have later := joinLines_memberLines depth ((second, found) :: rest)
    have between : Utf8.encodeChar ',' = [comma] := rfl
    have colon : Layout.indented.colon = [':', ' '] := rfl
    rw [memberLines, joinLines_append (lines_ne_nil _ _ _ _) (memberLines_ne_nil _ _ _), own, later]
    simp [membersText, leadOf, trailOf, writeMembers, encode_lineBreak, between, colon]

end

end Document

end BundlePacker.Json
