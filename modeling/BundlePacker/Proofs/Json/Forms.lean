import Mathlib.Data.List.Nodup
import BundlePacker.Proofs.Json.Fields

/-!
# Records as lists

A record may be written as the list of its values, in the order of its fields.  An element of a list
stands between blanks too, and besides it must not be taken for the end of the list.

The main statements say what becomes of such a list.  With one value for each field it is read as
the object of the same values is, in whatever order the object has them; with fewer it is too short,
and with more it is no list of a record.
-/

namespace BundlePacker.Json

/-! ## Values as elements -/

namespace Reader

variable {α β : Type}

/-- Whether a text is read as a value wherever it stands among the elements of a list. -/
def TakesElement (reader : Reader α) (text : Bytes) (value : α) : Prop :=
  ∀ ⦃before rest : Bytes⦄, AllSpace before → IsBoundary rest →
    ∃ byte start left, skipSpace (before ++ (text ++ rest)) = byte :: start ∧
      byte ≠ closeSquare ∧ AllSpace left ∧ reader.run (byte :: start) = .ok (value, left ++ rest)

/-- Whether a reader is framed and does not take the end of a list for a value. -/
structure IsElement (reader : Reader α) : Prop where
  framed : reader.IsFramed
  refuses : ∀ rest, ∃ fault, reader.run (closeSquare :: rest) = .error fault

theorem IsElement.map {reader : Reader α} (isElement : reader.IsElement) (transform : α → β) :
    (reader.map transform).IsElement where
  framed := isElement.framed.map transform
  refuses rest := by
    rcases isElement.refuses rest with ⟨fault, refused⟩
    exact ⟨fault, by simp only [Reader.map, refused]⟩

theorem exists_skipSpace_append (input : Bytes) :
    ∃ blanks, AllSpace blanks ∧ input = blanks ++ skipSpace input :=
  ⟨input.takeWhile isSpace, fun _ inside => List.mem_takeWhile_imp inside,
    (List.takeWhile_append_dropWhile ..).symm⟩

/-- A text that is read on its own is read in the same way as an element. -/
theorem IsElement.takesElement {reader : Reader α} (isElement : reader.IsElement) {text : Bytes}
    {value : α} (reads : reader.readAll text = .ok value) : reader.TakesElement text value := by
  intro before rest space boundary
  rcases isElement.framed.takes reads space boundary with ⟨left, leftSpace, found⟩
  rcases exists_skipSpace_append (before ++ (text ++ rest)) with ⟨blanks, blank, split⟩
  rw [split, isElement.framed.skips blank] at found
  cases shown : skipSpace (before ++ (text ++ rest)) with
  | nil =>
      rw [shown] at found
      exact absurd (reader.shrinks found) (Nat.not_lt_zero _)
  | cons byte start =>
      rw [shown] at found
      refine ⟨byte, start, left, rfl, ?_, leftSpace, found⟩
      rintro rfl
      rcases isElement.refuses start with ⟨fault, refused⟩
      rw [refused] at found
      cases found

end Reader

theorem skipSpace_closeSquare (rest : Bytes) :
    skipSpace (closeSquare :: rest) = closeSquare :: rest :=
  skipSpace_append_cons allSpace_nil (by decide) rest

theorem text_isElement : text.IsElement where
  framed := text_isFramed
  refuses rest := ⟨_, by simp only [text, skipSpace_closeSquare]; rfl⟩

theorem oneOf_isElement {α : Type} (known : List (String × α)) : (oneOf known).IsElement where
  framed := oneOf_isFramed known
  refuses rest := ⟨_, by simp only [oneOf, skipSpace_closeSquare]; rfl⟩

theorem list_isElement {α : Type} {element : Reader α} (isLocal : element.IsLocal) :
    (list element).IsElement where
  framed := list_isFramed isLocal
  refuses rest := ⟨_, by simp only [list, skipSpace_closeSquare]; rfl⟩

theorem map_isElement {α : Type} {value : Reader α} (isLocal : value.IsLocal) :
    (map value).IsElement where
  framed := map_isFramed isLocal
  refuses rest := ⟨_, by simp only [map, skipSpace_closeSquare]; rfl⟩

/-! ## The way to the next item -/

/-- Whether bytes stand between what has been read of a list or an object and its next item. -/
inductive Separates : Bool → Bytes → Prop
  | first {blanks : Bytes} (space : AllSpace blanks) :
      Separates true blanks
  | later {blanks lead : Bytes} (space : AllSpace blanks) (leadSpace : AllSpace lead) :
      Separates false (blanks ++ comma :: lead)

theorem Separates.append {isFirst : Bool} {separator more : Bytes}
    (separates : Separates isFirst separator) (space : AllSpace more) :
    Separates isFirst (separator ++ more) := by
  cases separates with
  | first blank => exact .first (blank.append space)
  | later blank lead =>
      rw [List.append_assoc, List.cons_append]
      exact .later blank (lead.append space)

/-- Behind a separator the next element begins, if no bracket closes the list there. -/
theorem nextElement_of_separates {isFirst : Bool} {separator : Bytes}
    (separates : Separates isFirst separator) {input rest : Bytes} {byte : UInt8}
    (shown : skipSpace input = byte :: rest) (proper : byte ≠ closeSquare) :
    nextElement isFirst (separator ++ input) = .ok (.item (byte :: rest)) := by
  have token : isSpace comma = false := by decide
  cases separates with
  | first space =>
      simp only [nextElement, skipSpace_append space, shown, if_neg proper, if_true]
  | @later blanks lead space leadSpace =>
      rw [List.append_assoc, List.cons_append]
      have differs : comma ≠ closeSquare := by decide
      simp [nextElement, skipSpace_append_cons space token, skipSpace_append leadSpace, shown,
        proper, differs]

/-- Behind a separator the next name begins. -/
theorem nextName_of_separates {isFirst : Bool} {separator : Bytes}
    (separates : Separates isFirst separator) (rest : Bytes) :
    nextName isFirst (separator ++ quote :: rest) = .ok (.item rest) := by
  cases separates with
  | first space => exact nextName_first space rest
  | later space leadSpace =>
      rw [List.append_assoc, List.cons_append]
      exact nextName_comma space leadSpace rest

/-- The text of items that are not the first ones of a list. -/
def laterItems (items : List Item) : Bytes :=
  items.flatMap fun item => comma :: item.bytes

theorem laterItems_cons (item : Item) (items : List Item) (rest : Bytes) :
    laterItems (item :: items) ++ rest =
      comma :: (item.before.bytes ++
        (item.value ++ (item.after.bytes ++ (laterItems items ++ rest)))) := by
  simp [laterItems, Item.bytes]

theorem isBoundary_laterItems (items : List Item) {rest : Bytes} (boundary : IsBoundary rest) :
    IsBoundary (laterItems items ++ rest) := by
  cases items with
  | nil => exact boundary
  | cons item others => exact isBoundary_cons (.inl rfl) _

theorem commaSeparated_items (item : Item) (items : List Item) (rest : Bytes) :
    commaSeparated ((item :: items).map Item.bytes) ++ rest =
      item.before.bytes ++ (item.value ++ (item.after.bytes ++ (laterItems items ++ rest))) := by
  simp [commaSeparated_cons, laterItems, Item.bytes, List.flatMap_map]

/-- An item behind a separator is the next element, and is read up to what follows it. -/
theorem Reader.TakesElement.exists_element {α : Type} {reader : Reader α} {item : Item} {value : α}
    (takes : reader.TakesElement item.value value) {isFirst : Bool} {separator : Bytes}
    (separates : Separates isFirst separator) {rest : Bytes} (boundary : IsBoundary rest) :
    ∃ start left, AllSpace left ∧
      nextElement isFirst
          (separator ++ (item.before.bytes ++ (item.value ++ (item.after.bytes ++ rest)))) =
        .ok (.item start) ∧
      reader.run start = .ok (value, left ++ rest) := by
  rcases takes allSpace_nil (isBoundary_space_append item.after.space boundary)
    with ⟨byte, start, left, shown, proper, space, found⟩
  refine ⟨byte :: start, left ++ item.after.bytes, space.append item.after.space, ?_, ?_⟩
  · rw [← List.append_assoc]
    exact nextElement_of_separates (separates.append item.before.space) shown proper
  · rw [found, List.append_assoc]

/-! ## Fields from elements -/

/-- Whether taking up items for fields one after the other leads from a draft to another. -/
inductive TakesIn {σ : Type} : σ → List (Field σ) → List Item → σ → Prop
  | nil (draft : σ) :
      TakesIn draft [] [] draft
  | cons {draft last : σ} {field : Field σ} {fields : List (Field σ)} {item : Item}
      {items : List Item} {update : σ → σ} (takes : field.value.TakesElement item.value update)
      (later : TakesIn (update draft) fields items last) :
      TakesIn draft (field :: fields) (item :: items) last

namespace Record

variable {σ α : Type} {record : Record σ α} {draft last : σ} {fields : List (Field σ)}
  {items : List Item}

/-- Items after the first one of a list are taken up, and reading goes on behind them. -/
theorem readFields_later (record : Record σ α) (takesIn : TakesIn draft fields items last)
    (others : List (Field σ)) {count : Nat} (started : count ≠ 0) {blanks tail : Bytes}
    (space : AllSpace blanks) (boundary : IsBoundary tail) :
    ∃ left, AllSpace left ∧
      record.readFields (fields ++ others) count draft (blanks ++ (laterItems items ++ tail)) =
        record.readFields others (count + items.length) last (left ++ tail) := by
  induction takesIn generalizing count blanks with
  | nil => exact ⟨blanks, space, rfl⟩
  | @cons draft last field fields item items update takes later hypothesis =>
      have separates : Separates (count = 0) (blanks ++ comma :: []) := by
        rw [decide_eq_false started]
        exact .later space allSpace_nil
      rcases takes.exists_element separates (isBoundary_laterItems items boundary)
        with ⟨start, between, betweenSpace, turned, found⟩
      have counts : count + 1 + items.length = count + (items.length + 1) := by omega
      rcases hypothesis (Nat.add_one_ne_zero count) betweenSpace with ⟨left, leftSpace, same⟩
      refine ⟨left, leftSpace, ?_⟩
      rw [laterItems_cons, List.cons_append, readFields]
      rw [List.append_assoc, List.cons_append, List.nil_append] at turned
      simp only [turned, found, same, counts, List.length_cons]

/-- The items of a list are taken up from its opening bracket on. -/
theorem readFields_items (record : Record σ α) (takesIn : TakesIn draft fields items last)
    (others : List (Field σ)) (gap : Blanks) {tail : Bytes}
    (boundary : items = [] ∨ IsBoundary tail) :
    ∃ left, AllSpace left ∧
      record.readFields (fields ++ others) 0 draft
          (gap.bytes ++ (commaSeparated (items.map Item.bytes) ++ tail)) =
        record.readFields others items.length last (left ++ tail) := by
  cases takesIn with
  | nil => exact ⟨gap.bytes, gap.space, rfl⟩
  | @cons _ _ field fields item items update takes later =>
      have follows := boundary.resolve_left (List.cons_ne_nil item items)
      rcases takes.exists_element (Separates.first gap.space) (isBoundary_laterItems items follows)
        with ⟨start, between, betweenSpace, turned, found⟩
      rcases readFields_later record later others (Nat.add_one_ne_zero 0) betweenSpace
        follows with ⟨left, leftSpace, same⟩
      refine ⟨left, leftSpace, ?_⟩
      rw [commaSeparated_items, List.cons_append, readFields]
      simp only [decide_true, turned, found, same, List.length_cons, Nat.zero_add, Nat.add_comm]

/-- The reading of a list goes on behind its opening bracket. -/
theorem run_listText (record : Record σ α) (gap : Blanks) (items : List Item) (rest : Bytes) :
    record.reader.run (listText gap items ++ rest) =
      record.readList
        (gap.bytes ++ (commaSeparated (items.map Item.bytes) ++ closeSquare :: rest)) := by
  have shape : listText gap items ++ rest = openSquare ::
      (gap.bytes ++ (commaSeparated (items.map Item.bytes) ++ closeSquare :: rest)) := by
    simp [listText]
  have opened : ∀ input, skipSpace (openSquare :: input) = openSquare :: input :=
    fun input => skipSpace_append_cons allSpace_nil (by decide) input
  have differs : openSquare ≠ openCurly := by decide
  simp only [reader, shape, opened, if_neg differs, if_true]

/-- A list with a value for each field is read as the record of their draft. -/
theorem run_listText_of_takesIn (takesIn : TakesIn record.blank record.fields items last)
    (gap : Blanks) (rest : Bytes) :
    record.reader.run (listText gap items ++ rest) = record.finishWith last rest := by
  rcases readFields_items record takesIn [] gap
    (.inr (isBoundary_cons (.inr (.inl rfl)) rest)) with ⟨left, space, same⟩
  have token : isSpace closeSquare = false := by decide
  rw [List.append_nil] at same
  simp only [run_listText, readList, same, readFields, readListEnd,
    skipSpace_append_cons space token, if_true]

/-- A list with values for the first fields only is too short. -/
theorem run_listText_of_fewer (takesIn : TakesIn record.blank fields items last)
    {field : Field σ} {others : List (Field σ)} (split : record.fields = fields ++ field :: others)
    (gap : Blanks) (rest : Bytes) :
    record.reader.run (listText gap items ++ rest) =
      .error (.tooShort items.length record.title record.fields.length) := by
  rcases readFields_items record takesIn (field :: others) gap
    (.inr (isBoundary_cons (.inr (.inl rfl)) rest)) with ⟨left, space, same⟩
  rw [← split] at same
  simp only [run_listText, readList, same, readFields, nextElement_closed space]

/-- Behind the elements of a list no further value may stand. -/
theorem readListEnd_of_value {left : Bytes} (space : AllSpace left) {item : Item}
    (isValue : IsValue item.value) (rest : Bytes) :
    readListEnd (left ++ comma :: (item.before.bytes ++ (item.value ++ rest))) =
      .error .trailingCharacters := by
  rcases isValue.exists_cons with ⟨byte, start, begins, token, proper⟩
  have tokenComma : isSpace comma = false := by decide
  have differs : comma ≠ closeSquare := by decide
  simp [readListEnd, skipSpace_append_cons space tokenComma, differs, begins,
    skipSpace_append_cons item.before.space token, proper]

/-- A list with a further value behind those of the fields is not one of a record. -/
theorem run_listText_of_more (takesIn : TakesIn record.blank record.fields items last)
    (nonempty : items ≠ []) {further : Item} (isValue : IsValue further.value)
    (others : List Item) (gap : Blanks) (rest : Bytes) :
    record.reader.run (listText gap (items ++ further :: others) ++ rest) =
      .error .trailingCharacters := by
  rcases List.exists_cons_of_ne_nil nonempty with ⟨first, more, rfl⟩
  have shape : commaSeparated ((first :: more ++ further :: others).map Item.bytes) ++
        closeSquare :: rest =
      commaSeparated ((first :: more).map Item.bytes) ++
        (laterItems (further :: others) ++ closeSquare :: rest) := by
    rw [List.cons_append, commaSeparated_items, commaSeparated_items]
    simp [laterItems]
  rw [laterItems_cons] at shape
  rcases readFields_items record takesIn [] gap (.inr (isBoundary_cons (.inl rfl) _))
    with ⟨left, space, same⟩
  rw [List.append_nil] at same
  rw [run_listText, readList, shape, same, readFields, readListEnd_of_value space isValue]

/-- An object whose members are taken up is read as the record of their draft. -/
theorem run_objectText_of_takesUp {members : List (String × Member)}
    (takesUp : TakesUp record.gather record.blank members last) (gap : Blanks) (rest : Bytes) :
    record.reader.run (objectText gap (members.map Prod.snd) ++ rest) =
      record.finishWith last rest := by
  rcases exists_objectText gap members rest with ⟨inside, shape⟩
  have opened : skipSpace (openCurly :: inside) = openCurly :: inside :=
    skipSpace_append_cons allSpace_nil (by decide) inside
  simp only [reader, shape, opened, if_true, readObject, readMembers_object takesUp gap shape]

/-! ## The same values in both forms -/

/-- The values of items under the names of fields, in order. -/
def namedTexts (fields : List (Field σ)) (items : List Item) : List (String × Bytes) :=
  (fields.map Field.name).zip (items.map Item.value)

/-- Whether each of the items is a value of its field. -/
def Reads (fields : List (Field σ)) (items : List Item) : Prop :=
  List.Forall₂ (fun field item => ∃ update, field.value.readAll item.value = .ok update)
    fields items

/-- A lawful record that can be read from a list, and whose drafts are their parts. -/
structure IsPositional (record : Record σ α) : Prop extends record.IsLawful where
  elements : ∀ field ∈ record.fields, field.value.IsElement
  distinct : record.names.Nodup
  nonempty : record.fields ≠ []
  determined : ∀ ⦃first second : σ⦄,
    (∀ ⦃β : Type⦄ ⦃name : String⦄ ⦃reader : Reader β⦄ ⦃part : σ → Option β⦄,
      record.Slot name reader part → part first = part second) → first = second

/-- Whether the parts of a draft hold the values of named texts, and else what they held before. -/
def Holds (record : Record σ α) (before : σ) (texts : List (String × Bytes)) (draft : σ) : Prop :=
  ∀ ⦃β : Type⦄ ⦃name : String⦄ ⦃reader : Reader β⦄ ⦃part : σ → Option β⦄,
    record.Slot name reader part →
      (name ∉ texts.map Prod.fst → part draft = part before) ∧
      ∀ text, (name, text) ∈ texts →
        ∃ value, reader.readAll text = .ok value ∧ part draft = some value

theorem namedTexts_cons (field : Field σ) (fields : List (Field σ)) (item : Item)
    (items : List Item) :
    namedTexts (field :: fields) (item :: items) =
      (field.name, item.value) :: namedTexts fields items :=
  rfl

theorem Reads.map_fst_namedTexts (reads : Reads fields items) :
    (namedTexts fields items).map Prod.fst = fields.map Field.name := by
  rw [namedTexts, List.map_fst_zip]
  rw [List.length_map, List.length_map, reads.length_eq]

/-- Each of the named texts is a value of the field of its name. -/
theorem Reads.exists_of_mem (reads : Reads fields items) {name : String} {text : Bytes}
    (comes : (name, text) ∈ namedTexts fields items) :
    ∃ field ∈ fields, field.name = name ∧ ∃ update, field.value.readAll text = .ok update := by
  induction reads with
  | nil => cases comes
  | @cons field item fields items read others hypothesis =>
      rw [namedTexts_cons] at comes
      rcases List.mem_cons.mp comes with same | later
      · cases same
        exact ⟨field, List.mem_cons_self .., rfl, read⟩
      · rcases hypothesis later with ⟨other, inside, same, read⟩
        exact ⟨other, List.mem_cons_of_mem _ inside, same, read⟩

/-- Values of fields are taken up, and the parts of the fields hold them. -/
theorem exists_takesIn (inside : ∀ field ∈ fields, field ∈ record.fields)
    (elements : ∀ field ∈ fields, field.value.IsElement)
    (distinct : (fields.map Field.name).Nodup) (reads : Reads fields items) (draft : σ) :
    ∃ last, TakesIn draft fields items last ∧
      record.Holds draft (namedTexts fields items) last := by
  induction reads generalizing draft with
  | nil => exact ⟨draft, .nil draft, fun _ _ _ _ _ => ⟨fun _ => rfl, by simp [namedTexts]⟩⟩
  | @cons field item fields items read others hypothesis =>
      rcases List.forall_mem_cons.mp elements with ⟨isElement, laterElements⟩
      rcases List.forall_mem_cons.mp inside with ⟨isField, laterInside⟩
      rcases List.nodup_cons.mp distinct with ⟨fresh, laterDistinct⟩
      rcases read with ⟨update, found⟩
      rcases hypothesis laterInside laterElements laterDistinct (update draft)
        with ⟨last, takesIn, holds⟩
      refine ⟨last, .cons (isElement.takesElement found) takesIn, ?_⟩
      intro β name reader part slot
      rcases holds slot with ⟨kept, given⟩
      rw [namedTexts_cons, List.map_cons, List.mem_cons]
      rw [Reads.map_fst_namedTexts others] at kept ⊢
      constructor
      · intro absent
        rcases not_or.mp absent with ⟨differs, later⟩
        rw [kept later, slot.others field isField (Ne.symm differs) found]
      · intro text comes
        rcases List.mem_cons.mp comes with same | later
        · cases same
          rcases slot.own field isField rfl found with ⟨value, gives, put⟩
          exact ⟨value, gives, by rw [kept fresh, put]⟩
        · exact given text later

section

variable {texts : List (String × Bytes)} (all : texts.map Prod.fst = record.names)

include all

/-- Where each field has a text, its part holds the value of the text. -/
theorem Holds.exists_value {before draft : σ} (holds : record.Holds before texts draft) {β : Type}
    {name : String} {reader : Reader β} {part : σ → Option β}
    (slot : record.Slot name reader part) :
    ∃ text value, (name, text) ∈ texts ∧ reader.readAll text = .ok value ∧
      part draft = some value := by
  have known : name ∈ texts.map Prod.fst := all ▸ slot.known
  rcases List.mem_map.mp known with ⟨⟨name, text⟩, comes, rfl⟩
  rcases (holds slot).2 text comes with ⟨value, reads, put⟩
  exact ⟨text, value, comes, reads, put⟩

/-- Drafts that hold the same texts of all fields are the same. -/
theorem IsPositional.eq_of_holds (positional : record.IsPositional)
    {others : List (String × Bytes)} (same : texts.Perm others) {first second : σ}
    (holds : record.Holds record.blank texts first)
    (otherHolds : record.Holds record.blank others second) : first = second := by
  refine positional.determined fun β name reader part slot => ?_
  rcases holds.exists_value all slot with ⟨text, value, comes, reads, put⟩
  rcases (otherHolds slot).2 text (same.subset comes) with ⟨other, again, otherPut⟩
  rw [reads] at again
  cases again
  rw [put, otherPut]

/-- Where each field has a text, a record is made. -/
theorem IsPositional.exists_finish (positional : record.IsPositional) {draft : σ}
    (holds : record.Holds record.blank texts draft) : ∃ value, record.finish draft = .ok value := by
  refine positional.made draft (List.find?_eq_none.mpr fun field inside => ?_)
  rcases positional.slots field inside with ⟨β, reader, part, slot⟩
  rcases holds.exists_value all slot with ⟨text, value, -, -, put⟩
  simp [slot.present field inside rfl, put]

end

/--
Members stand for named texts if they have the same names, in any order, with the same values.
-/
structure StandFor (members : List (String × Member)) (texts : List (String × Bytes)) : Prop where
  spells : ∀ pair ∈ members, Spells pair.2.spelling pair.1.toList
  texts : texts.Perm (members.map fun pair => (pair.1, pair.2.value))

/-- Under distinct names, a member gives the value of its name. -/
theorem memberValue?_of_mem {β : Type} {members : List (String × Member)}
    (distinct : (members.map Prod.fst).Nodup) {name : String} {member : Member}
    (inside : (name, member) ∈ members) {reader : Reader β} {value : β}
    (reads : reader.readAll member.value = .ok value) :
    memberValue? members name reader = some value := by
  induction members with
  | nil => cases inside
  | cons pair members hypothesis =>
      rcases List.nodup_cons.mp distinct with ⟨fresh, laterDistinct⟩
      rcases List.mem_cons.mp inside with rfl | later
      · exact memberValue?_cons_self reads name members
      · have differs : name ≠ pair.1 := fun same =>
          fresh (same ▸ List.mem_map.mpr ⟨_, later, rfl⟩)
        rw [← hypothesis laterDistinct later]
        exact memberValue?_cons_of_ne differs reader pair.2 members

/-- Members that stand for the values of all fields are taken up, and the parts hold the values. -/
theorem IsPositional.exists_takesUp (positional : record.IsPositional)
    (reads : Reads record.fields items) {members : List (String × Member)}
    (standFor : StandFor members (namedTexts record.fields items)) :
    ∃ last, TakesUp record.gather record.blank members last ∧
      record.Holds record.blank (members.map fun pair => (pair.1, pair.2.value)) last := by
  have names : (members.map Prod.fst).Perm record.names := by
    have mapped := (standFor.texts.map Prod.fst).symm
    rwa [reads.map_fst_namedTexts, List.map_map] at mapped
  have distinct : (members.map Prod.fst).Nodup := names.nodup_iff.mpr positional.distinct
  have fits : ∀ pair ∈ members, record.Fits pair.1 pair.2 := by
    intro pair inside
    have comes : (pair.1, pair.2.value) ∈ namedTexts record.fields items :=
      standFor.texts.symm.subset (List.mem_map.mpr ⟨pair, inside, rfl⟩)
    refine ⟨standFor.spells pair inside, fun field isField same => ?_, fun unknown => ?_⟩
    · rcases reads.exists_of_mem comes with ⟨other, otherIsField, otherName, read⟩
      rwa [List.inj_on_of_nodup_map positional.distinct isField otherIsField
        (same.trans otherName.symm)]
    · exact absurd (names.subset (List.mem_map.mpr ⟨pair, inside, rfl⟩)) unknown
  have once : AtMostOnce record.names (members.map Prod.fst) :=
    fun name _ => List.nodup_iff_count_le_one.mp distinct name
  rcases Record.exists_takesUp positional.toIsLawful fits once
      fun field isField _ => isPresent_blank positional.toIsLawful isField
    with ⟨last, takesUp, filled⟩
  refine ⟨last, takesUp, fun β name reader part slot => ⟨fun absent => ?_, fun text comes => ?_⟩⟩
  · rw [List.map_map] at absent
    exact absurd (names.symm.subset slot.known) absent
  · rcases List.mem_map.mp comes with ⟨⟨name, member⟩, inside, same⟩
    cases same
    rcases exists_field slot.known with ⟨field, isField, sameName, -⟩
    rcases (fits _ inside).known field isField sameName with ⟨update, read⟩
    rcases slot.own field isField sameName read with ⟨value, gives, -⟩
    refine ⟨value, gives, ?_⟩
    rw [filled slot, slot.blank, Option.none_or, memberValue?_of_mem distinct inside gives]

/-- With one value for each field, the list and the object are read as the same record. -/
theorem IsPositional.exists_run (positional : record.IsPositional)
    (reads : Reads record.fields items) {members : List (String × Member)}
    (standFor : StandFor members (namedTexts record.fields items)) (gap inner : Blanks) :
    ∃ value, ∀ rest,
      record.reader.run (listText gap items ++ rest) = .ok (value, rest) ∧
      record.reader.run (objectText inner (members.map Prod.snd) ++ rest) = .ok (value, rest) := by
  rcases Record.exists_takesIn (fun _ inside => inside) positional.elements positional.distinct
    reads record.blank with ⟨draft, takesIn, holds⟩
  rcases positional.exists_takesUp reads standFor with ⟨other, takesUp, otherHolds⟩
  cases positional.eq_of_holds reads.map_fst_namedTexts standFor.texts holds otherHolds
  rcases positional.exists_finish reads.map_fst_namedTexts holds with ⟨value, finished⟩
  refine ⟨value, fun rest => ⟨?_, ?_⟩⟩
  · rw [run_listText_of_takesIn takesIn, finishWith, finished]
  · rw [run_objectText_of_takesUp takesUp, finishWith, finished]

end Record

end BundlePacker.Json
