import Mathlib
import BundlePacker.Proofs.Descriptor.Object
import BundlePacker.Proofs.Json.Within

/-!
# Lists in place of objects

Descriptors, artifacts and variants may each be written as a list, whether what encloses them is a
list or an object, and a kind or a platform may be written as an object.

The main statement says that the two ways to write a value agree wherever the value stands.  It also
says what becomes of a list with fewer or more elements than the record has fields.
-/

namespace BundlePacker

open Json (Within Item Member Blanks Spells quote closeCurly listText objectText)

namespace Json

/-- Whether a record may be written as a list in place of an object. -/
structure Record.FormsAgree {σ α : Type} (record : Record σ α) : Prop where
  /-- One value for each field makes a record, and the same one in both forms. -/
  reads : ∀ ⦃items : List Item⦄ ⦃members : List (String × Member)⦄,
    Record.Reads record.fields items →
      Record.StandFor members (Record.namedTexts record.fields items) →
      ∀ before gap inner after : Blanks, ∃ value,
        record.reader.readAll (before.bytes ++ (listText gap items ++ after.bytes)) = .ok value ∧
        record.reader.readAll
          (before.bytes ++ (objectText inner (members.map Prod.snd) ++ after.bytes)) = .ok value
  /-- Inside another value, what becomes of the whole does not depend on the form. -/
  same : ∀ ⦃β : Type⦄ ⦃outer : Reader β⦄ ⦃front : Bytes⦄, Within record.reader outer front →
    ∀ ⦃items : List Item⦄ ⦃members : List (String × Member)⦄, Record.Reads record.fields items →
      Record.StandFor members (Record.namedTexts record.fields items) →
        ∀ (before gap inner : Blanks) (back : Bytes),
          outer.readAll (before.bytes ++ (front ++ (listText gap items ++ back))) =
            outer.readAll
              (before.bytes ++ (front ++ (objectText inner (members.map Prod.snd) ++ back)))
  /-- A list with values for the first fields only is too short. -/
  tooFew : ∀ ⦃β : Type⦄ ⦃outer : Reader β⦄ ⦃front : Bytes⦄, Within record.reader outer front →
    ∀ ⦃items : List Item⦄, items.length < record.fields.length →
      Record.Reads (record.fields.take items.length) items →
        ∀ (before gap : Blanks) (back : Bytes), ∃ fault,
          outer.readAll (before.bytes ++ (front ++ (listText gap items ++ back))) = .error fault ∧
            fault.category = .data ∧
            fault.message = "invalid length " ++ toString items.length ++ ", expected struct " ++
              record.title ++ " with " ++ toString record.fields.length ++ " elements"
  /-- A list with a further value is no JSON for a record. -/
  tooMany : ∀ ⦃β : Type⦄ ⦃outer : Reader β⦄ ⦃front : Bytes⦄, Within record.reader outer front →
    ∀ ⦃items : List Item⦄ ⦃further : Item⦄, Record.Reads record.fields items →
      IsValue further.value →
        ∀ (others : List Item) (before gap : Blanks) (back : Bytes), ∃ fault,
          outer.readAll
              (before.bytes ++ (front ++ (listText gap (items ++ further :: others) ++ back))) =
            .error fault ∧
            fault.category = .syntactic

/-- Whether a value that is known by name may be written as an object with its name. -/
structure Reader.TagsAgree {α : Type} (reader : Reader α) (name : α → String) : Prop where
  /-- Both forms are read as the value of that name. -/
  reads : ∀ (value : α) ⦃spelling : Bytes⦄ ⦃member : Member⦄, Spells spelling (name value).toList →
    Spells member.spelling (name value).toList → member.value = [0x6E, 0x75, 0x6C, 0x6C] →
      ∀ before gap after : Blanks,
        reader.readAll (before.bytes ++ (quote :: (spelling ++ quote :: after.bytes))) = .ok value ∧
        reader.readAll (before.bytes ++ (objectText gap [member] ++ after.bytes)) = .ok value
  /-- Inside another value, what becomes of the whole does not depend on the form. -/
  same : ∀ ⦃β : Type⦄ ⦃outer : Reader β⦄ ⦃front : Bytes⦄, Within reader outer front →
    ∀ ⦃name : String⦄ ⦃spelling : Bytes⦄ ⦃member : Member⦄, Spells spelling name.toList →
      Spells member.spelling name.toList → member.value = [0x6E, 0x75, 0x6C, 0x6C] →
        ∀ (before gap : Blanks) (back : Bytes),
          outer.readAll (before.bytes ++ (front ++ (quote :: (spelling ++ quote :: back)))) =
            outer.readAll (before.bytes ++ (front ++ (objectText gap [member] ++ back)))

theorem opens_listText (gap : Blanks) (items : List Item) (rest : Bytes) :
    Opens (listText gap items ++ rest) :=
  ⟨openSquare, _, rfl, .inr (.inl rfl)⟩

theorem opens_objectText (gap : Blanks) (members : List Member) (rest : Bytes) :
    Opens (objectText gap members ++ rest) :=
  ⟨openCurly, _, rfl, .inr (.inr rfl)⟩

/-- A framed reader that reads a value up to its end reads it between blanks. -/
theorem Reader.IsFramed.readAll_of_run {α : Type} {reader : Reader α} (framed : reader.IsFramed)
    {input : Bytes} {value : α} (before after : Blanks)
    (found : reader.run input = .ok (value, after.bytes)) :
    reader.readAll (before.bytes ++ input) = .ok value :=
  readAll_eq_ok_iff.mpr ⟨after.bytes, after.space, (framed.skips before.space _).trans found⟩

/-- A positional record may be written as a list. -/
theorem Record.IsPositional.formsAgree {σ α : Type} {record : Record σ α}
    (positional : record.IsPositional) : record.FormsAgree where
  reads items members reads standFor before gap inner after := by
    have framed := positional.reader_isFramed
    rcases positional.exists_run reads standFor gap inner with ⟨value, found⟩
    rcases found after.bytes with ⟨list, object⟩
    exact ⟨value, framed.readAll_of_run before after list,
      framed.readAll_of_run before after object⟩
  same β outer front within items members reads standFor before gap inner back := by
    rcases positional.exists_run reads standFor gap inner with ⟨value, found⟩
    rcases found back with ⟨list, object⟩
    exact within.readAll_congr positional.reader_isFramed (opens_listText ..) (opens_objectText ..)
      (list.trans object.symm) before
  tooFew β outer front within items fewer reads before gap back := by
    have inside : ∀ field ∈ record.fields.take items.length, field ∈ record.fields :=
      fun field taken => List.mem_of_mem_take taken
    have distinct : ((record.fields.take items.length).map Field.name).Nodup :=
      positional.distinct.sublist ((List.take_sublist ..).map _)
    rcases Record.exists_takesIn inside
      (fun field taken => positional.elements field (inside field taken)) distinct reads
      record.blank with ⟨last, takesIn, -⟩
    have split : record.fields = record.fields.take items.length ++
        record.fields[items.length] :: record.fields.drop (items.length + 1) := by
      rw [List.getElem_cons_drop, List.take_append_drop]
    exact ⟨_, within.readAll_error positional.reader_isFramed (opens_listText ..)
      (Record.run_listText_of_fewer takesIn split gap back) before, rfl, rfl⟩
  tooMany β outer front within items further reads isValue others before gap back := by
    rcases Record.exists_takesIn (fun _ inside => inside) positional.elements positional.distinct
      reads record.blank with ⟨last, takesIn, -⟩
    have nonempty : items ≠ [] := by
      rintro rfl
      exact positional.nonempty (List.forall₂_nil_right_iff.mp reads)
    exact ⟨_, within.readAll_error positional.reader_isFramed (opens_listText ..)
      (Record.run_listText_of_more takesIn nonempty isValue others gap back) before, rfl⟩

section

variable {α : Type} (known : List (String × α)) {name : String}

/-- A name is looked up, and what follows it is left. -/
theorem oneOf_run_name {spelling : Bytes} (spells : Spells spelling name.toList) (rest : Bytes) :
    (oneOf known).run (quote :: (spelling ++ quote :: rest)) =
      (choose known name).map fun meaning => (meaning, rest) := by
  have shown : skipSpace (quote :: (spelling ++ quote :: rest)) =
      quote :: (spelling ++ quote :: rest) :=
    skipSpace_append_cons allSpace_nil (by decide) _
  have differs : quote ≠ openCurly := by decide
  simp only [oneOf, shown, if_neg differs, if_true, readChoice, content_run_of_spells spells]
  cases choose known name <;> rfl

/-- The null beside a name is read with the bracket behind it. -/
theorem readNullAndClose_of_null {item : Item} (isNull : item.value = [0x6E, 0x75, 0x6C, 0x6C])
    (rest : Bytes) : readNullAndClose (item.bytes ++ closeCurly :: rest) = .ok rest := by
  have tokenNull : isSpace 0x6E = false := by decide
  have tokenCurly : isSpace closeCurly = false := by decide
  simp [readNullAndClose, Item.bytes, isNull, skipSpace_append_cons item.before.space tokenNull,
    word, skipSpace_append_cons item.after.space tokenCurly]

/-- A name with a null beside it is looked up, and what follows the object is left. -/
theorem oneOf_run_tagged {member : Member} (spells : Spells member.spelling name.toList)
    (isNull : member.value = [0x6E, 0x75, 0x6C, 0x6C]) (gap : Blanks) (rest : Bytes) :
    (oneOf known).run (objectText gap [member] ++ rest) =
      (choose known name).map fun meaning => (meaning, rest) := by
  have shape : objectText gap [member] ++ rest =
      openCurly :: ((gap.bytes ++ member.beforeName.bytes) ++
        quote :: (member.spelling ++ quote :: (member.afterName.bytes ++
          colon :: (member.toItem.bytes ++ closeCurly :: rest)))) := by
    simp [objectText, commaSeparated, Member.bytes]
  have shown : ∀ input, skipSpace (openCurly :: input) = openCurly :: input :=
    fun input => skipSpace_append_cons allSpace_nil (by decide) input
  have tokenQuote : isSpace quote = false := by decide
  have tokenColon : isSpace colon = false := by decide
  simp only [shape, oneOf, shown, if_true, readTagged,
    skipSpace_append_cons (gap.space.append member.beforeName.space) tokenQuote,
    readChoice, content_run_of_spells spells]
  cases choose known name with
  | error fault => rfl
  | ok meaning =>
      simp only [Except.map, skipColon, skipSpace_append_cons member.afterName.space tokenColon,
        if_true, readNullAndClose_of_null isNull]

/-- A value that is known by name may be written as an object. -/
theorem oneOf_tagsAgree {names : α → String}
    (chosen : ∀ value, choose known (names value) = .ok value) :
    (oneOf known).TagsAgree names where
  reads value spelling member spells tagged isNull before gap after := by
    have framed := oneOf_isFramed known
    constructor
    · refine framed.readAll_of_run before after ?_
      rw [oneOf_run_name known spells, chosen]
      rfl
    · refine framed.readAll_of_run before after ?_
      rw [oneOf_run_tagged known tagged isNull, chosen]
      rfl
  same β outer front within name spelling member spells tagged isNull before gap back :=
    within.readAll_congr (oneOf_isFramed known) ⟨quote, _, rfl, .inl rfl⟩ (opens_objectText ..)
      ((oneOf_run_name known spells back).trans
        (oneOf_run_tagged known tagged isNull gap back).symm)
      before

end

end Json

namespace Variant

theorem isPositional : record.IsPositional where
  toIsLawful := isLawful
  elements := List.forall_mem_cons.mpr
    ⟨Json.text_isElement.map _, List.forall_mem_singleton.mpr
      ((Json.list_isElement (Json.oneOf_endsItself _).isLocal).map _)⟩
  distinct := by decide
  nonempty := List.cons_ne_nil _ _
  determined := by
    rintro ⟨path, triples⟩ ⟨otherPath, otherTriples⟩ same
    cases same slot_path
    cases same slot_supportedTriples
    rfl

end Variant

namespace Artifact

theorem isPositional : record.IsPositional where
  toIsLawful := isLawful
  elements := List.forall_mem_cons.mpr
    ⟨Json.text_isElement.map _, List.forall_mem_cons.mpr
      ⟨(Json.oneOf_isElement _).map _, List.forall_mem_singleton.mpr
        ((Json.list_isElement Variant.isLawful.reader_isFramed.ends.isLocal).map _)⟩⟩
  distinct := by decide
  nonempty := List.cons_ne_nil _ _
  determined := by
    rintro ⟨version, kind, variants⟩ ⟨otherVersion, otherKind, otherVariants⟩ same
    cases same slot_version
    cases same slot_kind
    cases same slot_variants
    rfl

end Artifact

namespace Descriptor

theorem isPositional : record.IsPositional where
  toIsLawful := isLawful
  elements := List.forall_mem_cons.mpr
    ⟨Json.text_isElement.map _, List.forall_mem_singleton.mpr
      ((Json.map_isElement Artifact.isLawful.reader_isFramed.ends.isLocal).map _)⟩
  distinct := by decide
  nonempty := List.cons_ne_nil _ _
  determined := by
    rintro ⟨version, artifacts⟩ ⟨otherVersion, otherArtifacts⟩ same
    cases same slot_schemaVersion
    cases same slot_artifacts
    rfl

/--
Descriptors, artifacts and variants may be written as lists, and kinds and platforms as objects,
wherever they stand.
-/
theorem forms_agree :
    Descriptor.record.FormsAgree ∧ Artifact.record.FormsAgree ∧ Variant.record.FormsAgree ∧
      ArtifactKind.reader.TagsAgree ArtifactKind.name ∧ Triple.reader.TagsAgree Triple.name := by
  refine ⟨isPositional.formsAgree, Artifact.isPositional.formsAgree,
    Variant.isPositional.formsAgree, Json.oneOf_tagsAgree _ fun kind => ?_,
    Json.oneOf_tagsAgree _ fun triple => ?_⟩
  · cases kind
    rfl
  · cases triple <;> rfl

/-- A value without blanks around it. -/
def plainItem (value : Bytes) : Item :=
  ⟨.none, value, .none⟩

/-- An artifact may stand under a name in a descriptor that is written as a list. -/
theorem within_listed : Within Artifact.record.reader Descriptor.record.reader
    (Utf8.ofString "[\"1\",\x7b\"a\":") := by
  have isVersion : Json.text.readAll (plainItem (Utf8.ofString "\"1\"")).value = .ok "1" := by cbv
  have takesIn : Json.TakesIn record.blank (record.fields.take 1)
      [plainItem (Utf8.ofString "\"1\"")] ⟨some "1", none⟩ :=
    .cons ((Json.text_isElement.map _).takesElement
      (Json.Reader.readAll_map_eq_ok_iff.mpr ⟨"1", isVersion, rfl⟩)) (.nil _)
  have split : record.fields = record.fields.take 1 ++ record.fields[1] :: [] := rfl
  have named : Spells (Member.plain "a" []).spelling "a".toList := Json.spells_encode (by decide)
  have itself : Within Artifact.record.reader Artifact.record.reader [] := .whole
  have inside : Within Artifact.record.reader record.fields[1].value (Utf8.ofString "\x7b\"a\":") :=
    (Within.entry itself (.nil ∅) named .none).map _
  exact inside.field split takesIn .none .none

/-- An artifact in a descriptor is the same in both forms, and too short without its variants. -/
theorem forms_agree_nested :
    Descriptor.ofJson (Utf8.ofString
        "[\"1\",\x7b\"a\":[\"2\",\"executable\",[]]\x7d]") =
      Descriptor.ofJson (Utf8.ofString
        "[\"1\",\x7b\"a\":\x7b\"variants\":[],\"type\":\"executable\",\"version\":\"2\"\x7d\x7d]") ∧
    ∃ fault, Descriptor.ofJson (Utf8.ofString "[\"1\",\x7b\"a\":[\"2\",\"executable\"]\x7d]") =
        .error fault ∧
      fault.category = .data ∧
      fault.message = "invalid length 2, expected struct Artifact with 3 elements" := by
  have version : ∃ update, (Json.text.map fun version (draft : Artifact.Draft) =>
      { draft with version := some version }).readAll (Utf8.ofString "\"2\"") = .ok update :=
    ⟨_, Json.Reader.readAll_map_eq_ok_iff.mpr ⟨"2", by cbv, rfl⟩⟩
  have kind : ∃ update, (ArtifactKind.reader.map fun kind (draft : Artifact.Draft) =>
      { draft with kind := some kind }).readAll (Utf8.ofString "\"executable\"") = .ok update :=
    ⟨_, Json.Reader.readAll_map_eq_ok_iff.mpr ⟨.executable, by cbv, rfl⟩⟩
  have variants : ∃ update, ((Json.list Variant.record.reader).map
      fun variants (draft : Artifact.Draft) => { draft with variants := some variants }).readAll
        (Utf8.ofString "[]") = .ok update :=
    ⟨_, Json.Reader.readAll_map_eq_ok_iff.mpr ⟨[], by cbv, rfl⟩⟩
  constructor
  · have reads : Json.Record.Reads Artifact.record.fields
        [plainItem (Utf8.ofString "\"2\""), plainItem (Utf8.ofString "\"executable\""),
          plainItem (Utf8.ofString "[]")] :=
      .cons version (.cons kind (.cons variants .nil))
    have standFor : Json.Record.StandFor
        [("variants", .plain "variants" (Utf8.ofString "[]")),
          ("type", .plain "type" (Utf8.ofString "\"executable\"")),
          ("version", .plain "version" (Utf8.ofString "\"2\""))]
        (Json.Record.namedTexts Artifact.record.fields
          [plainItem (Utf8.ofString "\"2\""), plainItem (Utf8.ofString "\"executable\""),
            plainItem (Utf8.ofString "[]")]) :=
      { spells := by
          simp only [List.forall_mem_cons]
          refine ⟨Json.spells_encode (by decide), Json.spells_encode (by decide),
            Json.spells_encode (by decide), fun _ inside => absurd inside List.not_mem_nil⟩
        texts := (List.reverse_perm _).symm }
    exact forms_agree.2.1.same within_listed reads standFor .none .none .none
      (Utf8.ofString "\x7d]")
  · have fewer : [plainItem (Utf8.ofString "\"2\""),
        plainItem (Utf8.ofString "\"executable\"")].length < Artifact.record.fields.length := by
      decide
    exact forms_agree.2.1.tooFew within_listed fewer (.cons version (.cons kind .nil)) .none .none
      (Utf8.ofString "\x7d]")

end Descriptor

end BundlePacker
