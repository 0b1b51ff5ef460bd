import Mathlib.Data.List.Forall2
import BundlePacker.Json.Record
import BundlePacker.Json.Escape.Lemmas

/-!
# Documents are read back

A reader reads a document as a value when it takes the text of the document off the front of any
byte sequence and stops right after it, whatever the layout and whatever follows.  What stands
between two tokens of a layout has to be skipped, so a layout may only put blanks there.

For each way to put a reader together this module says what it reads a document as: texts, names,
lists, objects whose members are taken up one by one, and records in the form of objects.
-/

namespace BundlePacker.Json

/-- Bytes that may stand between two tokens without a meaning. -/
def AllSpace (bytes : Bytes) : Prop :=
  ∀ byte ∈ bytes, isSpace byte = true

/-- A layout that writes nothing but blanks and line breaks between the tokens of a document. -/
structure Layout.IsBlank (layout : Layout) : Prop where
  lineBreak : ∀ depth, AllSpace (Utf8.encode (layout.lineBreak depth))
  colon : ∃ blanks, AllSpace blanks ∧ Utf8.encode layout.colon = Json.colon :: blanks

/-- Whether a reader takes the text of a document for a value and leaves what follows it. -/
def ReadsAs {α : Type} (reader : Reader α) (document : Document) (value : α) : Prop :=
  ∀ layout : Layout, layout.IsBlank → ∀ blanks, AllSpace blanks → ∀ depth rest,
    reader.run (blanks ++ (Utf8.encode (document.write layout depth) ++ rest)) =
      .ok (value, rest)

/-! ## Blanks and layouts -/

theorem skipSpace_append {blanks : Bytes} (space : AllSpace blanks) (input : Bytes) :
    skipSpace (blanks ++ input) = skipSpace input := by
  induction blanks with
  | nil =>
      rfl
  | cons byte others hypothesis =>
      have isBlank : isSpace byte = true := space byte (List.mem_cons_self ..)
      have later : AllSpace others := fun other member =>
        space other (List.mem_cons_of_mem _ member)
      rw [← hypothesis later]
      simp [skipSpace, isBlank]

/-- Blanks before a byte that means something are skipped up to it. -/
theorem skipSpace_append_cons {blanks : Bytes} (space : AllSpace blanks) {byte : UInt8}
    (token : isSpace byte = false) (rest : Bytes) :
    skipSpace (blanks ++ byte :: rest) = byte :: rest := by
  rw [skipSpace_append space]
  simp [skipSpace, token]

theorem allSpace_nil : AllSpace [] := by
  intro byte member
  cases member

theorem allSpace_singleton {byte : UInt8} (space : isSpace byte = true) : AllSpace [byte] := by
  intro other member
  rw [List.mem_singleton.mp member]
  exact space

theorem allSpace_replicate (count : Nat) :
    AllSpace (Utf8.encode (List.replicate count ' ')) := by
  induction count with
  | zero =>
      exact allSpace_nil
  | succ count hypothesis =>
      intro byte member
      rw [List.replicate_succ, Utf8.encode_cons] at member
      rcases List.mem_append.mp member with first | later
      · have same : byte = 0x20 := by
          simpa using (show byte ∈ [(0x20 : UInt8)] from first)
        subst same
        decide
      · exact hypothesis byte later

theorem isBlank_indented : Layout.indented.IsBlank where
  lineBreak := by
    intro depth byte member
    rw [Layout.indented, Utf8.encode_cons] at member
    rcases List.mem_append.mp member with first | later
    · have same : byte = 0x0A := by
        simpa using (show byte ∈ [(0x0A : UInt8)] from first)
      subst same
      decide
    · exact allSpace_replicate _ byte later
  colon := ⟨[0x20], allSpace_singleton (by decide), rfl⟩

theorem isBlank_compact : Layout.compact.IsBlank where
  lineBreak := fun _ => allSpace_nil
  colon := ⟨[], allSpace_nil, rfl⟩

/-! ## Texts and names -/

/-- A text between quotes, as bytes, begins with a quote and goes on with what is read back. -/
theorem encode_quoted_append (content : String) (rest : Bytes) :
    ∃ written, Utf8.encode (quoted content) ++ rest = quote :: written ∧
      Json.content.run written = .ok (content, rest) := by
  rcases content_run_quoted content rest with ⟨written, shape, reads⟩
  exact ⟨written ++ rest, by rw [shape, List.cons_append], reads⟩

theorem readsAs_text (content : String) : ReadsAs text (.text content) content := by
  intro layout isBlank blanks space depth rest
  rcases encode_quoted_append content rest with ⟨written, shape, reads⟩
  have skipped : skipSpace (blanks ++ quote :: written) = quote :: written :=
    skipSpace_append_cons space (by decide) written
  rw [Document.write, shape]
  simp [text, skipped, reads]

/-- A value that is known by a name is read from the name. -/
theorem readsAs_oneOf {α : Type} {known : List (String × α)} {name : String} {meaning : α}
    (chosen : choose known name = .ok meaning) :
    ReadsAs (oneOf known) (.text name) meaning := by
  intro layout isBlank blanks space depth rest
  rcases encode_quoted_append name rest with ⟨written, shape, reads⟩
  have skipped : skipSpace (blanks ++ quote :: written) = quote :: written :=
    skipSpace_append_cons space (by decide) written
  have differs : quote ≠ openCurly := by decide
  rw [Document.write, shape]
  simp [oneOf, skipped, differs, readChoice, reads, chosen]

theorem ReadsAs.map {α β : Type} {reader : Reader α} {document : Document} {value : α}
    (reads : ReadsAs reader document value) (transform : α → β) :
    ReadsAs (reader.map transform) document (transform value) := by
  intro layout isBlank blanks space depth rest
  simp [Reader.map, reads layout isBlank blanks space depth rest]

/-! ## Lists -/

/-- Every document begins with a byte that is no blank and closes no list. -/
theorem encode_write_append (layout : Layout) (document : Document) (depth : Nat) (rest : Bytes) :
    ∃ byte written, Utf8.encode (document.write layout depth) ++ rest = byte :: written ∧
      isSpace byte = false ∧ byte ≠ closeSquare := by
  cases document with
  | text content =>
      rcases encode_quoted_append content rest with ⟨written, shape, -⟩
      exact ⟨quote, written, shape, by decide, by decide⟩
  | list items =>
      cases items <;> exact ⟨openSquare, _, rfl, by decide, by decide⟩
  | object members =>
      rcases members with - | ⟨⟨name, value⟩, others⟩ <;>
        exact ⟨openCurly, _, rfl, by decide, by decide⟩

theorem readElements_closed {α : Type} {element : Reader α} {isFirst : Bool}
    {input rest : Bytes} (turned : nextElement isFirst input = .ok (.closed rest)) :
    readElements element isFirst input = .ok ([], rest) := by
  rw [readElements]
  split
  · next failed => rw [turned] at failed; cases failed
  · next again => rw [turned] at again; cases again; rfl
  · next other => rw [turned] at other; cases other

theorem readElements_item {α : Type} {element : Reader α} {isFirst : Bool}
    {input start rest last : Bytes} {value : α} {values : List α}
    (turned : nextElement isFirst input = .ok (.item start))
    (found : element.run start = .ok (value, rest))
    (later : readElements element false rest = .ok (values, last)) :
    readElements element isFirst input = .ok (value :: values, last) := by
  rw [readElements]
  split
  · next failed => rw [turned] at failed; cases failed
  · next other => rw [turned] at other; cases other
  · next again =>
    rw [turned] at again
    cases again
    split
    · next failed => rw [found] at failed; cases failed
    · next again =>
      rw [found] at again
      cases again
      simp [later]

/-- The end of a list is found behind any blanks. -/
theorem nextElement_closed {blanks : Bytes} (space : AllSpace blanks) (isFirst : Bool)
    (rest : Bytes) :
    nextElement isFirst (blanks ++ closeSquare :: rest) = .ok (.closed rest) := by
  have skipped : skipSpace (blanks ++ closeSquare :: rest) = closeSquare :: rest :=
    skipSpace_append_cons space (by decide) rest
  simp [nextElement, skipped]

/-- The first element of a list begins right after the blanks behind the bracket. -/
theorem nextElement_first {blanks : Bytes} (space : AllSpace blanks) (layout : Layout)
    (document : Document) (depth : Nat) (rest : Bytes) :
    nextElement true (blanks ++ (Utf8.encode (document.write layout depth) ++ rest)) =
      .ok (.item (Utf8.encode (document.write layout depth) ++ rest)) := by
  rcases encode_write_append layout document depth rest with ⟨byte, written, shape, token, opens⟩
  rw [shape]
  simp [nextElement, skipSpace_append_cons space token, opens]

/-- A later element of a list begins after a comma and blanks. -/
theorem nextElement_later {blanks : Bytes} (space : AllSpace blanks) (layout : Layout)
    (document : Document) (depth : Nat) (rest : Bytes) :
    nextElement false (comma :: blanks ++ (Utf8.encode (document.write layout depth) ++ rest)) =
      .ok (.item (Utf8.encode (document.write layout depth) ++ rest)) := by
  rcases encode_write_append layout document depth rest with ⟨byte, written, shape, token, opens⟩
  have separated : skipSpace (comma :: (blanks ++ byte :: written)) =
      comma :: (blanks ++ byte :: written) :=
    skipSpace_append_cons allSpace_nil (by decide) _
  have differs : comma ≠ closeSquare := by decide
  rw [shape, List.cons_append]
  simp [nextElement, separated, differs, skipSpace_append_cons space token, opens]

/-- The items after the first one of a list are read up to its closing bracket. -/
theorem readElements_writeItems {α : Type} {element : Reader α} {layout : Layout}
    (isBlank : layout.IsBlank) {documents : List Document} {values : List α}
    (reads : List.Forall₂ (ReadsAs element) documents values) (depth : Nat) {blanks : Bytes}
    (space : AllSpace blanks) (rest : Bytes) :
    readElements element false
        (Utf8.encode (Document.writeItems layout depth documents) ++
          (blanks ++ closeSquare :: rest)) =
      .ok (values, rest) := by
  induction reads with
  | nil =>
      exact readElements_closed (nextElement_closed space false rest)
  | cons read others hypothesis =>
      next document value documents values =>
      have parts : Utf8.encode (Document.writeItems layout depth (document :: documents)) ++
            (blanks ++ closeSquare :: rest) =
          comma :: Utf8.encode (layout.lineBreak depth) ++
            (Utf8.encode (document.write layout depth) ++
              (Utf8.encode (Document.writeItems layout depth documents) ++
                (blanks ++ closeSquare :: rest))) := by
        simp only [Document.writeItems, List.cons_append, Utf8.encode_cons, Utf8.encode_append,
          List.append_assoc]
        rfl
      rw [parts]
      exact readElements_item
        (nextElement_later (isBlank.lineBreak depth) layout document depth _)
        (read layout isBlank [] allSpace_nil depth _) hypothesis

/-- A list of documents is read as the list of their values. -/
theorem readsAs_list {α : Type} {element : Reader α} {documents : List Document}
    {values : List α} (reads : List.Forall₂ (ReadsAs element) documents values) :
    ReadsAs (list element) (.list documents) values := by
  intro layout isBlank blanks space depth rest
  have skipped : ∀ input,
      skipSpace (blanks ++ openSquare :: input) = openSquare :: input :=
    fun input => skipSpace_append_cons space (by decide) input
  cases reads with
  | nil =>
      have closed : readElements element true (closeSquare :: rest) = .ok ([], rest) :=
        readElements_closed (nextElement_closed allSpace_nil true rest)
      have parts : Utf8.encode (Document.write layout depth (.list [])) ++ rest =
          openSquare :: closeSquare :: rest := rfl
      rw [parts]
      simp [list, skipped, closed]
  | cons read others =>
      next document value documents values =>
      have parts : Utf8.encode (Document.write layout depth (.list (document :: documents))) ++
            rest =
          openSquare :: (Utf8.encode (layout.lineBreak (depth + 1)) ++
            (Utf8.encode (document.write layout (depth + 1)) ++
              (Utf8.encode (Document.writeItems layout (depth + 1) documents) ++
                (Utf8.encode (layout.lineBreak depth) ++ closeSquare :: rest)))) := by
        simp only [Document.write, List.cons_append, Utf8.encode_cons, Utf8.encode_append,
          List.append_assoc]
        rfl
      have inner := readElements_item
        (nextElement_first (isBlank.lineBreak (depth + 1)) layout document (depth + 1) _)
        (read layout isBlank [] allSpace_nil (depth + 1) _)
        (readElements_writeItems isBlank others (depth + 1) (isBlank.lineBreak depth) rest)
      rw [parts]
      simp [list, skipped, inner]

/-! ## Objects -/

/-- Whether taking up the members of an object one after the other leads from a draft to another. -/
inductive Gathers {σ : Type} (gather : Gathering σ) : σ → List (String × Document) → σ → Prop where
  | nil (gathered : σ) : Gathers gather gathered [] gathered
  | cons {gathered last : σ} {name : String} {document : Document}
      {members : List (String × Document)} {reader : Reader (σ → σ)} {update : σ → σ}
      (chosen : gather gathered name = .ok reader)
      (reads : ReadsAs reader document update)
      (later : Gathers gather (update gathered) members last) :
      Gathers gather gathered ((name, document) :: members) last

theorem readMembers_closed {σ : Type} {gather : Gathering σ} {isFirst : Bool} {gathered : σ}
    {input rest : Bytes} (turned : nextName isFirst input = .ok (.closed rest)) :
    readMembers gather isFirst gathered input = .ok (gathered, rest) := by
  rw [readMembers]
  split
  · next failed => rw [turned] at failed; cases failed
  · next again => rw [turned] at again; cases again; rfl
  · next other => rw [turned] at other; cases other

theorem readMembers_item {σ : Type} {gather : Gathering σ} {isFirst : Bool}
    {gathered next last : σ} {input start rest final : Bytes}
    (turned : nextName isFirst input = .ok (.item start))
    (found : readMember gather gathered start = .ok (next, rest))
    (later : readMembers gather false next rest = .ok (last, final)) :
    readMembers gather isFirst gathered input = .ok (last, final) := by
  rw [readMembers]
  split
  · next failed => rw [turned] at failed; cases failed
  · next other => rw [turned] at other; cases other
  · next again =>
    rw [turned] at again
    cases again
    split
    · next failed => rw [found] at failed; cases failed
    · next again =>
      rw [found] at again
      cases again
      exact later

/-- The end of an object is found behind any blanks. -/
theorem nextName_closed {blanks : Bytes} (space : AllSpace blanks) (isFirst : Bool)
    (rest : Bytes) : nextName isFirst (blanks ++ closeCurly :: rest) = .ok (.closed rest) := by
  have skipped : skipSpace (blanks ++ closeCurly :: rest) = closeCurly :: rest :=
    skipSpace_append_cons space (by decide) rest
  simp [nextName, skipped]

/-- The first name of an object stands right after the blanks behind the bracket. -/
theorem nextName_first {blanks : Bytes} (space : AllSpace blanks) (rest : Bytes) :
    nextName true (blanks ++ quote :: rest) = .ok (.item rest) := by
  have skipped : skipSpace (blanks ++ quote :: rest) = quote :: rest :=
    skipSpace_append_cons space (by decide) rest
  have differs : quote ≠ closeCurly := by decide
  simp [nextName, skipped, differs]

/-- A later name of an object stands after a comma and blanks. -/
theorem nextName_later {blanks : Bytes} (space : AllSpace blanks) (rest : Bytes) :
    nextName false (comma :: blanks ++ quote :: rest) = .ok (.item rest) := by
  have separated : skipSpace (comma :: (blanks ++ quote :: rest)) =
      comma :: (blanks ++ quote :: rest) :=
    skipSpace_append_cons allSpace_nil (by decide) _
  have skipped : skipSpace (blanks ++ quote :: rest) = quote :: rest :=
    skipSpace_append_cons space (by decide) rest
  have differs : comma ≠ closeCurly := by decide
  rw [List.cons_append]
  simp [nextName, separated, differs, skipped]

/-- A member as it is written, from the opening quote of its name on, with what follows it. -/
def memberText (layout : Layout) (depth : Nat) (name : String) (document : Document)
    (rest : Bytes) : Bytes :=
  Utf8.encode (quoted name) ++
    (Utf8.encode layout.colon ++ (Utf8.encode (document.write layout depth) ++ rest))

/-- A member that can be taken up is read, up to what follows it. -/
theorem readMember_memberText {σ : Type} {gather : Gathering σ} {gathered : σ} {layout : Layout}
    (isBlank : layout.IsBlank) {name : String} {document : Document} {reader : Reader (σ → σ)}
    {update : σ → σ} (chosen : gather gathered name = .ok reader)
    (reads : ReadsAs reader document update) (depth : Nat) (rest : Bytes) :
    ∃ start, memberText layout depth name document rest = quote :: start ∧
      readMember gather gathered start = .ok (update gathered, rest) := by
  rcases isBlank.colon with ⟨blanks, space, separator⟩
  rcases encode_quoted_append name (Utf8.encode layout.colon ++
    (Utf8.encode (document.write layout depth) ++ rest)) with ⟨start, shape, named⟩
  refine ⟨start, shape, ?_⟩
  have afterName : skipColon (Utf8.encode layout.colon ++
      (Utf8.encode (document.write layout depth) ++ rest)) =
      .ok (blanks ++ (Utf8.encode (document.write layout depth) ++ rest)) := by
    rw [separator, List.cons_append]
    have shown : skipSpace (colon :: (blanks ++
        (Utf8.encode (document.write layout depth) ++ rest))) =
        colon :: (blanks ++ (Utf8.encode (document.write layout depth) ++ rest)) :=
      skipSpace_append_cons allSpace_nil (by decide) _
    simp [skipColon, shown]
  have found := reads layout isBlank blanks space depth rest
  simp [readMember, named, chosen, afterName, found]

/-- The members after the first one of an object are taken up, to its closing bracket. -/
theorem readMembers_writeMembers {σ : Type} {gather : Gathering σ} {layout : Layout}
    (isBlank : layout.IsBlank) {gathered last : σ} {members : List (String × Document)}
    (gathers : Gathers gather gathered members last) (depth : Nat) {blanks : Bytes}
    (space : AllSpace blanks) (rest : Bytes) :
    readMembers gather false gathered
        (Utf8.encode (Document.writeMembers layout depth members) ++
          (blanks ++ closeCurly :: rest)) =
      .ok (last, rest) := by
  induction gathers with
  | nil gathered =>
      exact readMembers_closed (nextName_closed space false rest)
  | cons chosen reads later hypothesis =>
      next gathered last name document members reader update =>
      have parts : Utf8.encode (Document.writeMembers layout depth ((name, document) :: members)) ++
            (blanks ++ closeCurly :: rest) =
          comma :: Utf8.encode (layout.lineBreak depth) ++
            memberText layout depth name document
              (Utf8.encode (Document.writeMembers layout depth members) ++
                (blanks ++ closeCurly :: rest)) := by
        simp only [Document.writeMembers, memberText, List.cons_append, Utf8.encode_cons,
          Utf8.encode_append, List.append_assoc]
        rfl
      rcases readMember_memberText isBlank chosen reads depth
          (Utf8.encode (Document.writeMembers layout depth members) ++
            (blanks ++ closeCurly :: rest)) with ⟨start, shape, found⟩
      rw [parts, shape]
      exact readMembers_item (nextName_later (isBlank.lineBreak depth) start) found hypothesis

/-- The members of an object are taken up from its opening bracket to the closing one. -/
theorem exists_readMembers_write {σ : Type} {gather : Gathering σ} {layout : Layout}
    (isBlank : layout.IsBlank) {gathered last : σ} {members : List (String × Document)}
    (gathers : Gathers gather gathered members last) (depth : Nat) (rest : Bytes) :
    ∃ inside, Utf8.encode (Document.write layout depth (.object members)) ++ rest =
        openCurly :: inside ∧
      readMembers gather true gathered inside = .ok (last, rest) := by
  cases gathers with
  | nil =>
      exact ⟨closeCurly :: rest, rfl,
        readMembers_closed (nextName_closed allSpace_nil true rest)⟩
  | cons chosen reads later =>
      next name document members reader update =>
      rcases readMember_memberText isBlank chosen reads (depth + 1)
          (Utf8.encode (Document.writeMembers layout (depth + 1) members) ++
            (Utf8.encode (layout.lineBreak depth) ++ closeCurly :: rest))
        with ⟨start, shape, found⟩
      refine ⟨Utf8.encode (layout.lineBreak (depth + 1)) ++ quote :: start, ?_, ?_⟩
      · rw [← shape]
        simp only [Document.write, memberText, List.cons_append, Utf8.encode_cons,
          Utf8.encode_append, List.append_assoc]
        rfl
      · exact readMembers_item (nextName_first (isBlank.lineBreak (depth + 1)) start) found
          (readMembers_writeMembers isBlank later (depth + 1) (isBlank.lineBreak depth) rest)

/-- An object is read as the map that its members make, a later one replacing an earlier one. -/
theorem readsAs_map {α : Type} {value : Reader α} {members : List (String × Document)}
    {found : Std.ExtTreeMap String α}
    (gathers : Gathers
      (fun _ name => .ok (value.map fun found gathered => gathered.insert name found)) ∅
      members found) :
    ReadsAs (map value) (.object members) found := by
  intro layout isBlank blanks space depth rest
  rcases exists_readMembers_write isBlank gathers depth rest with ⟨inside, shape, reads⟩
  have skipped : skipSpace (blanks ++ openCurly :: inside) = openCurly :: inside :=
    skipSpace_append_cons space (by decide) inside
  rw [shape]
  simp [map, skipped, reads]

/-- An object whose members fill a draft is read as the record that the draft makes. -/
theorem readsAs_record {σ α : Type} {record : Record σ α} {members : List (String × Document)}
    {draft : σ} {value : α} (gathers : Gathers record.gather record.blank members draft)
    (finished : record.finish draft = .ok value) :
    ReadsAs record.reader (.object members) value := by
  intro layout isBlank blanks space depth rest
  rcases exists_readMembers_write isBlank gathers depth rest with ⟨inside, shape, reads⟩
  have skipped : skipSpace (blanks ++ openCurly :: inside) = openCurly :: inside :=
    skipSpace_append_cons space (by decide) inside
  rw [shape]
  simp [Record.reader, skipped, Record.readObject, reads, Record.finishWith, finished]

/-! ## Whole texts -/

/-- A reader that reads a document as a value reads the value from the document's text. -/
theorem ReadsAs.readAll_render {α : Type} {reader : Reader α} {document : Document} {value : α}
    (reads : ReadsAs reader document value) {layout : Layout} (isBlank : layout.IsBlank) :
    reader.readAll (Utf8.ofString (document.render layout)) = .ok value := by
  have found := reads layout isBlank [] allSpace_nil 0 []
  rw [List.nil_append, List.append_nil] at found
  simp [Reader.readAll, Document.render, Utf8.ofString, found, skipSpace]

end BundlePacker.Json
