import Mathlib.Data.List.TakeWhile
import BundlePacker.Proofs.Json.Extension.Record

/-!
# Objects are read member by member

However an object is spelled, its members are taken up one after the other.  A value stands between
blanks there, with a comma or a bracket behind it, and a reader takes it for the same as on its own:
values of known fields because their readers look no further, others because they are skipped up to
their ends.

The main statements are about the members of an object up to its closing bracket.  They are all
taken up, or the first one whose name is refused ends the reading, whatever stands behind that name.
-/

namespace BundlePacker.Json

/-! ## Values where they stand -/

theorem AllSpace.append {first second : Bytes} (space : AllSpace first)
    (secondSpace : AllSpace second) : AllSpace (first ++ second) := by
  intro byte inside
  exact (List.mem_append.mp inside).elim (space byte) (secondSpace byte)

namespace Reader

variable {α β : Type}

/-- Whether a reader looks at nothing but its value and the blanks before it. -/
structure IsFramed (reader : Reader α) : Prop where
  skips : ∀ {blanks : Bytes}, AllSpace blanks → ∀ input,
    reader.run (blanks ++ input) = reader.run input
  ends : reader.EndsItself

/-- Whether a text is read as a value wherever it stands among the values of an object or list. -/
def Takes (reader : Reader α) (text : Bytes) (value : α) : Prop :=
  ∀ ⦃before rest : Bytes⦄, AllSpace before → IsBoundary rest →
    ∃ left, AllSpace left ∧
      reader.run (before ++ (text ++ rest)) = .ok (value, left ++ rest)

theorem readAll_eq_ok_iff {reader : Reader α} {input : Bytes} {value : α} :
    reader.readAll input = .ok value ↔
      ∃ left, AllSpace left ∧ reader.run input = .ok (value, left) := by
  have blank : ∀ left, skipSpace left = [] ↔ AllSpace left :=
    fun left => List.dropWhile_eq_nil_iff
  unfold readAll
  constructor
  · intro success
    split at success
    · cases success
    · next left found =>
      split at success
      · next nothingLeft =>
        cases success
        exact ⟨left, (blank left).mp nothingLeft, found⟩
      · cases success
  · rintro ⟨left, space, found⟩
    simp only [found, (blank left).mpr space, if_true]

/-- A text that a framed reader reads on its own is read in the same way where it stands. -/
theorem IsFramed.takes {reader : Reader α} (framed : reader.IsFramed) {text : Bytes} {value : α}
    (reads : reader.readAll text = .ok value) : reader.Takes text value := by
  intro before rest space boundary
  rcases readAll_eq_ok_iff.mp reads with ⟨left, leftSpace, found⟩
  exact ⟨left, leftSpace, (framed.skips space _).trans (framed.ends found rest)⟩

theorem Takes.map {reader : Reader α} {text : Bytes} {value : α}
    (takes : reader.Takes text value) (transform : α → β) :
    (reader.map transform).Takes text (transform value) := by
  intro before rest space boundary
  rcases takes space boundary with ⟨left, leftSpace, found⟩
  exact ⟨left, leftSpace, by simp only [Reader.map, found]⟩

theorem IsFramed.map {reader : Reader α} (framed : reader.IsFramed) (transform : α → β) :
    (reader.map transform).IsFramed where
  skips space input := by
    simp only [Reader.map, framed.skips space input]
  ends := framed.ends.map transform

theorem readAll_map_eq_ok_iff {reader : Reader α} {input : Bytes} {transform : α → β}
    {result : β} :
    (reader.map transform).readAll input = .ok result ↔
      ∃ value, reader.readAll input = .ok value ∧ transform value = result := by
  constructor
  · intro success
    rcases readAll_eq_ok_iff.mp success with ⟨left, space, found⟩
    simp only [Reader.map] at found
    split at found
    · cases found
    · next value rest inner =>
      cases found
      exact ⟨value, readAll_eq_ok_iff.mpr ⟨left, space, inner⟩, rfl⟩
  · rintro ⟨value, reads, rfl⟩
    rcases readAll_eq_ok_iff.mp reads with ⟨left, space, found⟩
    exact readAll_eq_ok_iff.mpr ⟨left, space, by simp only [Reader.map, found]⟩

end Reader

theorem text_isFramed : text.IsFramed where
  skips space input := by
    simp only [text, skipSpace_append space]
  ends := text_endsItself

theorem oneOf_isFramed {α : Type} (known : List (String × α)) : (oneOf known).IsFramed where
  skips space input := by
    simp only [oneOf, skipSpace_append space]
  ends := oneOf_endsItself known

theorem list_isFramed {α : Type} {element : Reader α} (isLocal : element.IsLocal) :
    (list element).IsFramed where
  skips space input := by
    simp only [list, skipSpace_append space]
  ends := list_endsItself isLocal

theorem map_isFramed {α : Type} {value : Reader α} (isLocal : value.IsLocal) :
    (map value).IsFramed where
  skips space input := by
    simp only [map, skipSpace_append space]
  ends := map_endsItself isLocal

theorem Record.reader_isFramed {σ α : Type} {record : Record σ α} (isLocal : record.IsLocal) :
    record.reader.IsFramed where
  skips space input := by
    simp only [Record.reader, skipSpace_append space]
  ends := Record.reader_endsItself isLocal

/-- A value whose meaning is not wanted is skipped where it stands. -/
theorem anyValue_takes {value : Bytes} (isValue : IsValue value) : anyValue.Takes value () := by
  intro before rest space boundary
  have skipped := skips_of_isValue isValue [] before rest space boundary
  exact ⟨[], allSpace_nil, by simp [anyValue, skipped, skipOn_nil]⟩

/-! ## Members -/

/--
Whether taking up members one after the other leads from a draft to another.  Each member stands
with the name that it spells.
-/
inductive TakesUp {σ : Type} (gather : Gathering σ) : σ → List (String × Member) → σ → Prop
  | nil (gathered : σ) :
      TakesUp gather gathered [] gathered
  | cons {gathered last : σ} {name : String} {member : Member} {members : List (String × Member)}
      {reader : Reader (σ → σ)} {update : σ → σ} (spells : Spells member.spelling name.toList)
      (chosen : gather gathered name = .ok reader) (takes : reader.Takes member.value update)
      (later : TakesUp gather (update gathered) members last) :
      TakesUp gather gathered ((name, member) :: members) last

/-- The text of a member from behind the opening quote of its name. -/
def Member.fromName (member : Member) : Bytes :=
  member.spelling ++ quote :: (member.afterName.bytes ++ colon :: member.toItem.bytes)

section

variable {σ : Type} {gather : Gathering σ} {gathered : σ} {name : String} {member : Member}
  (spells : Spells member.spelling name.toList)

include spells

/-- A member is taken up, up to blanks before what follows it. -/
theorem readMember_of_takes {reader : Reader (σ → σ)} {update : σ → σ}
    (chosen : gather gathered name = .ok reader) (takes : reader.Takes member.value update)
    {rest : Bytes} (boundary : IsBoundary rest) :
    ∃ left, AllSpace left ∧
      readMember gather gathered (member.fromName ++ rest) =
        .ok (update gathered, left ++ rest) := by
  rcases takes member.before.space
      (isBoundary_space_append member.after.space boundary) with ⟨left, space, found⟩
  refine ⟨left ++ member.after.bytes, space.append member.after.space, ?_⟩
  have named := content_run_of_spells spells
    (member.afterName.bytes ++ colon :: (member.toItem.bytes ++ rest))
  have token : isSpace colon = false := by decide
  simp only [Member.fromName, Item.bytes, List.append_assoc, List.cons_append] at named ⊢
  simp only [readMember, named, chosen, skipColon,
    skipSpace_append_cons member.afterName.space token, if_true, found]

/-- A member that is refused by its name is an error, whatever its value. -/
theorem readMember_of_refused {fault : ReadError} (refused : gather gathered name = .error fault)
    (rest : Bytes) : readMember gather gathered (member.fromName ++ rest) = .error fault := by
  have named := content_run_of_spells spells
    (member.afterName.bytes ++ colon :: (member.toItem.bytes ++ rest))
  simp only [Member.fromName, List.append_assoc, List.cons_append] at named ⊢
  simp only [readMember, named, refused]

end

/-- One round of reading members. -/
theorem readMembers_eq {σ : Type} (gather : Gathering σ) (isFirst : Bool) (gathered : σ)
    (input : Bytes) :
    readMembers gather isFirst gathered input =
      match nextName isFirst input with
      | .error fault => .error fault
      | .ok (.closed rest) => .ok (gathered, rest)
      | .ok (.item start) =>
        match readMember gather gathered start with
        | .error fault => .error fault
        | .ok (next, rest) => readMembers gather false next rest := by
  rw [readMembers]
  split
  · next turned => simp only [turned]
  · next turned => simp only [turned]
  · next turned =>
    simp only [turned]
    split <;> next found => simp only [found]

theorem nextName_comma {blanks lead : Bytes} (space : AllSpace blanks) (leadSpace : AllSpace lead)
    (rest : Bytes) :
    nextName false (blanks ++ comma :: (lead ++ quote :: rest)) = .ok (.item rest) := by
  rw [← nextName_later leadSpace rest, nextName, nextName, skipSpace_append space,
    List.cons_append]

/-- The text of members that are not the first ones of an object. -/
def laterMembers (members : List (String × Member)) : Bytes :=
  members.flatMap fun pair => comma :: pair.2.bytes

theorem laterMembers_cons (name : String) (member : Member) (members : List (String × Member))
    (rest : Bytes) :
    laterMembers ((name, member) :: members) ++ rest =
      comma :: (member.beforeName.bytes ++
        quote :: (member.fromName ++ (laterMembers members ++ rest))) := by
  simp [laterMembers, Member.bytes, Member.fromName]

theorem laterMembers_append (members others : List (String × Member)) :
    laterMembers (members ++ others) = laterMembers members ++ laterMembers others :=
  List.flatMap_append

theorem isBoundary_laterMembers (members : List (String × Member)) {rest : Bytes}
    (boundary : IsBoundary rest) : IsBoundary (laterMembers members ++ rest) := by
  cases members with
  | nil => exact boundary
  | cons next others => exact isBoundary_cons (.inl rfl) _

theorem objectText_nil (gap : Blanks) (rest : Bytes) :
    objectText gap [] ++ rest = openCurly :: (gap.bytes ++ closeCurly :: rest) := by
  simp [objectText, commaSeparated]

theorem objectText_cons (gap : Blanks) (name : String) (member : Member)
    (members : List (String × Member)) (rest : Bytes) :
    objectText gap (((name, member) :: members).map Prod.snd) ++ rest =
      openCurly :: ((gap.bytes ++ member.beforeName.bytes) ++
        quote :: (member.fromName ++ (laterMembers members ++ closeCurly :: rest))) := by
  simp [objectText, commaSeparated_cons, laterMembers, Member.bytes, Member.fromName,
    List.flatMap_map]

section

variable {σ : Type} {gather : Gathering σ} {gathered last : σ} {members : List (String × Member)}

/-- Members after the first one of an object are taken up, and reading goes on behind them. -/
theorem readMembers_later (takesUp : TakesUp gather gathered members last) {blanks tail : Bytes}
    (space : AllSpace blanks) (boundary : IsBoundary tail) :
    ∃ left, AllSpace left ∧
      readMembers gather false gathered (blanks ++ (laterMembers members ++ tail)) =
        readMembers gather false last (left ++ tail) := by
  induction takesUp generalizing blanks with
  | nil =>
      exact ⟨blanks, space, rfl⟩
  | @cons gathered last name member members reader update spells chosen takes later hypothesis =>
      rcases readMember_of_takes spells chosen takes (isBoundary_laterMembers members boundary)
        with ⟨between, betweenSpace, found⟩
      rcases hypothesis betweenSpace with ⟨left, leftSpace, rest⟩
      refine ⟨left, leftSpace, ?_⟩
      rw [laterMembers_cons, readMembers_eq, nextName_comma space member.beforeName.space]
      simp only [found, rest]

/-- A later member whose name is refused ends the reading. -/
theorem readMembers_later_refused (takesUp : TakesUp gather gathered members last) {name : String}
    {member : Member} (spells : Spells member.spelling name.toList) {fault : ReadError}
    (refused : gather last name = .error fault) (others : List (String × Member))
    {blanks : Bytes} (space : AllSpace blanks) (tail : Bytes) :
    readMembers gather false gathered
        (blanks ++ (laterMembers (members ++ (name, member) :: others) ++ tail)) =
      .error fault := by
  rw [laterMembers_append, List.append_assoc, laterMembers_cons]
  rcases readMembers_later takesUp space (isBoundary_cons (.inl rfl) _) with ⟨left, leftSpace, same⟩
  rw [same, readMembers_eq, nextName_comma leftSpace member.beforeName.space]
  simp only [readMember_of_refused spells refused]

/-- The text of an object from behind its opening bracket. -/
theorem exists_objectText (gap : Blanks) (members : List (String × Member)) (rest : Bytes) :
    ∃ inside, objectText gap (members.map Prod.snd) ++ rest = openCurly :: inside :=
  ⟨_, rfl⟩

/-- The members of an object are taken up, from its opening bracket to the closing one. -/
theorem readMembers_object (takesUp : TakesUp gather gathered members last) (gap : Blanks)
    {inside rest : Bytes}
    (shape : objectText gap (members.map Prod.snd) ++ rest = openCurly :: inside) :
    readMembers gather true gathered inside = .ok (last, rest) := by
  cases takesUp with
  | nil =>
      rw [List.map_nil, objectText_nil] at shape
      cases shape
      exact readMembers_closed (nextName_closed gap.space true rest)
  | @cons _ _ name member members reader update spells chosen takes later =>
      have boundary : IsBoundary (closeCurly :: rest) := isBoundary_cons (.inr (.inr rfl)) rest
      rcases readMember_of_takes spells chosen takes (isBoundary_laterMembers members boundary)
        with ⟨between, betweenSpace, found⟩
      rcases readMembers_later later betweenSpace boundary with ⟨left, leftSpace, same⟩
      rw [objectText_cons] at shape
      cases shape
      rw [readMembers_eq, nextName_first (gap.space.append member.beforeName.space)]
      simp only [found, same, readMembers_closed (nextName_closed leftSpace false rest)]

/-- A member whose name is refused ends the reading of its object. -/
theorem readMembers_object_refused (takesUp : TakesUp gather gathered members last)
    {name : String} {member : Member} (spells : Spells member.spelling name.toList)
    {fault : ReadError} (refused : gather last name = .error fault)
    (others : List (String × Member)) (gap : Blanks) {inside rest : Bytes}
    (shape : objectText gap ((members ++ (name, member) :: others).map Prod.snd) ++ rest =
      openCurly :: inside) :
    readMembers gather true gathered inside = .error fault := by
  cases takesUp with
  | nil =>
      rw [List.nil_append, objectText_cons] at shape
      cases shape
      rw [readMembers_eq, nextName_first (gap.space.append member.beforeName.space)]
      simp only [readMember_of_refused spells refused]
  | @cons _ _ first firstMember members reader update firstSpells chosen takes later =>
      have boundary := isBoundary_laterMembers (members ++ (name, member) :: others)
        (isBoundary_cons (.inr (.inr rfl)) rest)
      rcases readMember_of_takes firstSpells chosen takes boundary
        with ⟨between, betweenSpace, found⟩
      rw [List.cons_append, objectText_cons] at shape
      cases shape
      rw [readMembers_eq, nextName_first (gap.space.append firstMember.beforeName.space)]
      simp only [found, readMembers_later_refused later spells refused others betweenSpace]

end

end BundlePacker.Json
