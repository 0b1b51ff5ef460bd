import Mathlib
import BundlePacker.Proofs.Descriptor.Object
import BundlePacker.Proofs.Descriptor.ReadBack
import BundlePacker.Proofs.Json.Truncation.Record

/-!
# Where the text of a descriptor ends

The text of a descriptor ends with its closing bracket.  Behind it there may be blanks and nothing
else, and nothing before it can be left out at the end: a descriptor says itself when it is over.
If the text has no names but those of the fields, then a text that is cut off is also told from a
text that is wrong, wherever the cut is.

The main statement says this of every text that is read as a descriptor.
-/

namespace BundlePacker

open Json (AllSpace ReadsAs Gathers openSquare closeSquare closeCurly)

namespace Json

/-- Whether the last byte of a text is a closing bracket. -/
def EndsWithBracket (text : Bytes) : Prop :=
  text.getLast? = some closeCurly ∨ text.getLast? = some closeSquare

/-- No blanks stand at the end of a text that ends with a bracket. -/
theorem EndsWithBracket.eq_nil_of_allSpace {front back : Bytes}
    (ends : EndsWithBracket (front ++ back)) (space : AllSpace back) : back = [] := by
  rcases List.eq_nil_or_concat back with rfl | ⟨others, last, rfl⟩
  · rfl
  · have blank : isSpace last = true := space last (by simp)
    rw [EndsWithBracket, List.concat_eq_append, ← List.append_assoc,
      List.getLast?_append_of_ne_nil _ (List.cons_ne_nil last [])] at ends
    rcases ends with curly | square
    · cases curly
      exact absurd blank (by decide)
    · cases square
      exact absurd blank (by decide)

namespace Reader

variable {α : Type} {reader : Reader α} {text : Bytes} {value : α}

/-- Blanks behind a text do not matter, and anything else is too much. -/
theorem EndsItself.readAll_append (ends : reader.EndsItself)
    (reads : reader.readAll text = .ok value) (more : Bytes) :
    reader.readAll (text ++ more) =
      if skipSpace more = [] then .ok value else .error .trailingCharacters := by
  rcases readAll_eq_ok_iff.mp reads with ⟨left, space, found⟩
  simp only [readAll, ends found more, skipSpace_append space]

/-- The end of a text that is read up to its bracket can not be left out. -/
theorem eq_nil_of_run_append {front back : Bytes}
    (reads : reader.readAll (front ++ back) = .ok value)
    (bracket : EndsWithBracket (front ++ back)) {other : α} {rest : Bytes}
    (found : reader.run (front ++ back) = .ok (other, rest ++ back)) : back = [] := by
  rcases readAll_eq_ok_iff.mp reads with ⟨left, space, again⟩
  rw [found] at again
  cases again
  exact bracket.eq_nil_of_allSpace fun byte inside => space byte (List.mem_append_right rest inside)

/-- A text without its end is not read. -/
theorem EndsItself.exists_error_of_prefix (ends : reader.EndsItself)
    (reads : reader.readAll text = .ok value) (bracket : EndsWithBracket text) {front : Bytes}
    (isPrefix : front <+: text) (proper : front ≠ text) :
    ∃ fault, reader.readAll front = .error fault := by
  rcases isPrefix with ⟨back, rfl⟩
  cases outcome : reader.readAll front with
  | error fault => exact ⟨fault, rfl⟩
  | ok other =>
      rcases readAll_eq_ok_iff.mp outcome with ⟨rest, -, found⟩
      have nothing := eq_nil_of_run_append reads bracket (ends found back)
      exact absurd (by rw [nothing, List.append_nil]) proper

/-- A reader that notices cuts asks for more than is left of a text without its end. -/
theorem NoticesCuts.exists_unfinished_of_prefix (notices : reader.NoticesCuts)
    (reads : reader.readAll text = .ok value) (bracket : EndsWithBracket text) {front : Bytes}
    (isPrefix : front <+: text) (proper : front ≠ text) :
    ∃ inside, reader.readAll front = .error (.unfinished inside) := by
  rcases isPrefix with ⟨back, rfl⟩
  have step := notices front back
  generalize cut : reader.run front = outcome, whole : reader.run (front ++ back) = result at step
  cases step with
  | fails =>
      rw [readAll, whole] at reads
      cases reads
  | unfinished inside => exact ⟨inside, by rw [readAll, cut]⟩
  | same left =>
      have nothing := eq_nil_of_run_append reads bracket whole
      exact absurd (by rw [nothing, List.append_nil]) proper

end Reader

/-- An object whose members are all known is read as a record, and no name is refused. -/
theorem readsAs_knownRecord {σ α : Type} {record : Record σ α} {members : List (String × Document)}
    {draft : σ} {value : α} (gathers : Gathers record.gatherKnown record.blank members draft)
    (finished : record.finish draft = .ok value) :
    ReadsAs record.knownReader (.object members) value := by
  intro layout isBlank blanks space depth rest
  rcases exists_readMembers_write isBlank gathers depth rest with ⟨inside, shape, reads⟩
  have skipped : skipSpace (blanks ++ openCurly :: inside) = openCurly :: inside :=
    skipSpace_append_cons space (by decide) inside
  rw [shape]
  simp [Record.knownReader, skipped, Record.readKnown, reads, Record.finishWith, finished]

end Json

/-! ## Descriptors without other names -/

namespace Variant

/-- The reader of variants that refuses other names than those of the fields. -/
def knownReader : Json.Reader Variant :=
  record.knownReader

theorem knownReader_refines : knownReader.Refines record.reader :=
  (Json.Record.Refines.refl record).knownReader

theorem knownReader_noticesCuts : knownReader.NoticesCuts := by
  refine Json.Record.knownReader_noticesCuts (List.forall_mem_cons.mpr
    ⟨Json.text_noticesCuts.map _, List.forall_mem_singleton.mpr ?_⟩)
  exact (Json.list_noticesCuts (Json.oneOf_noticesCuts _)).map _

theorem knownReader_readsAs (variant : Variant) :
    ReadsAs knownReader variant.toJson variant := by
  have triples : ReadsAs (Json.list Triple.reader)
      (.list (variant.supportedTriples.map fun triple => .text triple.name))
      variant.supportedTriples :=
    Json.readsAs_list_map Triple.readsAs variant.supportedTriples
  have gathers : Gathers record.gatherKnown record.blank
      [("path", .text variant.path),
        ("supportedTriples",
          .list (variant.supportedTriples.map fun triple => .text triple.name))]
      ⟨some variant.path, some variant.supportedTriples⟩ := by
    apply Gathers.cons rfl ((Json.readsAs_text variant.path).map _)
    apply Gathers.cons rfl (triples.map _)
    exact Gathers.nil _
  exact Json.readsAs_knownRecord gathers rfl

end Variant

namespace Artifact

/-- Artifacts whose variants have no other names than those of the fields. -/
def knownRecord : Json.Record Draft Artifact :=
  record.withValue "variants" ((Json.list Variant.knownReader).map fun variants draft =>
    { draft with variants := some variants })

/-- The reader of artifacts that refuses other names than those of the fields. -/
def knownReader : Json.Reader Artifact :=
  knownRecord.knownReader

theorem knownReader_refines : knownReader.Refines record.reader := by
  refine (Json.Record.withValue_refines ?_).knownReader
  refine List.forall_mem_cons.mpr ⟨fun same => absurd same (by decide),
    List.forall_mem_cons.mpr ⟨fun same => absurd same (by decide),
      List.forall_mem_singleton.mpr fun _ => ?_⟩⟩
  exact (Json.list_refines Variant.knownReader_refines).map _

theorem knownReader_noticesCuts : knownReader.NoticesCuts := by
  refine Json.Record.knownReader_noticesCuts (List.forall_mem_cons.mpr
    ⟨Json.text_noticesCuts.map _, List.forall_mem_cons.mpr
      ⟨(Json.oneOf_noticesCuts _).map _, List.forall_mem_singleton.mpr ?_⟩⟩)
  exact (Json.list_noticesCuts Variant.knownReader_noticesCuts).map _

theorem knownReader_readsAs (artifact : Artifact) :
    ReadsAs knownReader artifact.toJson artifact := by
  have variants : ReadsAs (Json.list Variant.knownReader)
      (.list (artifact.variants.map Variant.toJson)) artifact.variants :=
    Json.readsAs_list_map Variant.knownReader_readsAs artifact.variants
  have gathers : Gathers knownRecord.gatherKnown knownRecord.blank
      [("version", .text artifact.version),
        ("type", .text artifact.kind.name),
        ("variants", .list (artifact.variants.map Variant.toJson))]
      ⟨some artifact.version, some artifact.kind, some artifact.variants⟩ := by
    apply Gathers.cons rfl ((Json.readsAs_text artifact.version).map _)
    apply Gathers.cons rfl ((ArtifactKind.readsAs artifact.kind).map _)
    apply Gathers.cons rfl (variants.map _)
    exact Gathers.nil _
  exact Json.readsAs_knownRecord gathers rfl

end Artifact

namespace Descriptor

/-- Descriptors whose artifacts have no other names than those of the fields. -/
def knownRecord : Json.Record Draft Descriptor :=
  record.withValue "artifacts" ((Json.map Artifact.knownReader).map fun artifacts draft =>
    { draft with artifacts := some artifacts })

/-- The reader of descriptors that refuses other names than those of the fields. -/
def knownReader : Json.Reader Descriptor :=
  knownRecord.knownReader

/-- Whether a text is a descriptor in which every object has the names of fields only. -/
def HasKnownNames (text : Bytes) : Prop :=
  ∃ descriptor, knownReader.readAll text = .ok descriptor

theorem knownReader_refines : knownReader.Refines record.reader := by
  refine (Json.Record.withValue_refines ?_).knownReader
  refine List.forall_mem_cons.mpr ⟨fun same => absurd same (by decide),
    List.forall_mem_singleton.mpr fun _ => ?_⟩
  exact (Json.map_refines Artifact.knownReader_refines).map _

theorem knownReader_noticesCuts : knownReader.NoticesCuts := by
  refine Json.Record.knownReader_noticesCuts (List.forall_mem_cons.mpr
    ⟨Json.text_noticesCuts.map _, List.forall_mem_singleton.mpr ?_⟩)
  exact (Json.map_noticesCuts Artifact.knownReader_noticesCuts).map _

theorem knownReader_readsAs (descriptor : Descriptor) :
    ReadsAs knownReader descriptor.toJson descriptor := by
  have artifacts : ReadsAs (Json.map Artifact.knownReader)
      (.object (descriptor.artifacts.toList.map fun pair => (pair.1, pair.2.toJson)))
      descriptor.artifacts := by
    apply Json.readsAs_map
    have gathers := Json.gathers_map Artifact.knownReader_readsAs descriptor.artifacts.toList ∅
    rwa [← artifactsOf, artifactsOf_toList] at gathers
  have gathers : Gathers knownRecord.gatherKnown knownRecord.blank
      [("schemaVersion", .text descriptor.schemaVersion),
        ("artifacts",
          .object (descriptor.artifacts.toList.map fun pair => (pair.1, pair.2.toJson)))]
      ⟨some descriptor.schemaVersion, some descriptor.artifacts⟩ := by
    apply Gathers.cons rfl ((Json.readsAs_text descriptor.schemaVersion).map _)
    apply Gathers.cons rfl (artifacts.map _)
    exact Gathers.nil _
  exact Json.readsAs_knownRecord gathers rfl

/-- What is written has no other names than those of the fields. -/
theorem hasKnownNames_render (descriptor : Descriptor) :
    HasKnownNames (Utf8.ofString descriptor.render) :=
  ⟨descriptor, (knownReader_readsAs descriptor).readAll_render Json.isBlank_indented⟩

/-- What is written ends with a bracket. -/
theorem endsWithBracket_render (descriptor : Descriptor) :
    Json.EndsWithBracket (Utf8.ofString descriptor.render) := by
  have bracket : Utf8.encode ['\x7d'] = [closeCurly] := by decide
  refine .inl ?_
  rw [render, toJson, Json.Document.render, Utf8.ofString, String.toList_ofList,
    Json.Document.write, Utf8.encode_append, bracket, List.getLast?_concat]

/-! ## Framing -/

/-- A text with known names is unfinished wherever it is cut off. -/
theorem category_of_prefix {text : Bytes} (known : HasKnownNames text)
    (bracket : Json.EndsWithBracket text) {front : Bytes} (isPrefix : front <+: text)
    (proper : front ≠ text) :
    ∃ fault, ofJson front = .error fault ∧ fault.category = .unfinished := by
  rcases known with ⟨descriptor, reads⟩
  rcases knownReader_noticesCuts.exists_unfinished_of_prefix reads bracket isPrefix proper
    with ⟨inside, failure⟩
  exact ⟨_, (knownReader_refines.readAll front).unfinished failure, rfl⟩

/--
A text that is read as a descriptor and ends with its bracket frames itself.  It is read as the same
with blanks behind it, and whatever else is put there is reported as too much; no part of it is
read without its end, and if all its names are known, every such part is reported as unfinished.
-/
theorem framing :
    (∀ (text : Bytes) (descriptor : Descriptor),
      ofJson text = .ok descriptor → Json.EndsWithBracket text →
        (∀ more, AllSpace more → ofJson (text ++ more) = .ok descriptor) ∧
        (∀ more, ¬ AllSpace more →
          ∃ fault, ofJson (text ++ more) = .error fault ∧ fault.category = .syntactic ∧
            fault.message = "trailing characters") ∧
        (∀ front, front <+: text → front ≠ text → ∃ fault, ofJson front = .error fault) ∧
        (HasKnownNames text → ∀ front, front <+: text → front ≠ text →
          ∃ fault, ofJson front = .error fault ∧ fault.category = .unfinished)) ∧
    ∀ (descriptor : Descriptor) (front : Bytes),
      front <+: Utf8.ofString descriptor.render → front ≠ Utf8.ofString descriptor.render →
        ∃ fault, ofJson front = .error fault ∧ fault.category = .unfinished := by
  refine ⟨fun text descriptor reads bracket => ?_, fun descriptor front isPrefix proper => ?_⟩
  · have ends : record.reader.EndsItself := isLawful.reader_isFramed.ends
    have blank : ∀ more, Json.skipSpace more = [] ↔ AllSpace more :=
      fun more => List.dropWhile_eq_nil_iff
    refine ⟨fun more space => ?_, fun more other => ?_, fun front isPrefix proper => ?_,
      fun known front isPrefix proper => category_of_prefix known bracket isPrefix proper⟩
    · rw [ofJson, ends.readAll_append reads, if_pos ((blank more).mpr space)]
    · refine ⟨.trailingCharacters, ?_, rfl, rfl⟩
      rw [ofJson, ends.readAll_append reads, if_neg (other ∘ (blank more).mp)]
    · exact ends.exists_error_of_prefix reads bracket isPrefix proper
  · exact category_of_prefix (hasKnownNames_render descriptor) (endsWithBracket_render descriptor)
      isPrefix proper

/-- A number under a name that is not known is skipped, and without its end it may be faulty. -/
example : (ofJson (Utf8.ofString "\x7b\"x\":1.")).mapError (·.category) = .error .syntactic := by
  decide +kernel

/-- A text in which a name is spelled by an escape, and which has lists for two of its records. -/
def mixedForms : Bytes :=
  Utf8.ofString
    "[\"é\",\x7b\"\\u0061\": [\"1\",\x7b\"executable\":null\x7d,[\x7b\"supportedTriples\":[],\"path\":\"b\"\x7d]]\x7d]"

theorem ofJson_mixedForms : ofJson mixedForms =
    .ok ⟨"é", artifactsOf [("a", ⟨"1", .executable, [⟨"b", []⟩]⟩)]⟩ := by
  decide +kernel

theorem hasKnownNames_mixedForms : HasKnownNames mixedForms :=
  ⟨⟨"é", artifactsOf [("a", ⟨"1", .executable, [⟨"b", []⟩]⟩)]⟩, by decide +kernel⟩

/-- A line break may follow the text, a second bracket may not, and each cut is noticed. -/
theorem framing_mixedForms :
    ofJson (mixedForms ++ [0x0A]) = ofJson mixedForms ∧
    (∃ fault, ofJson (mixedForms ++ [closeSquare]) = .error fault ∧
      fault.category = .syntactic ∧ fault.message = "trailing characters") ∧
    (∃ fault, ofJson (mixedForms.take 3) = .error fault) ∧
    (∃ fault, ofJson (mixedForms.take 10) = .error fault ∧ fault.category = .unfinished) ∧
    ∃ fault, ofJson [] = .error fault ∧ fault.category = .unfinished := by
  have bracket : Json.EndsWithBracket mixedForms := .inr (by decide)
  rcases framing.1 mixedForms _ ofJson_mixedForms bracket with ⟨blanks, others, cut, unfinished⟩
  have tooMuch : ¬ AllSpace [closeSquare] := fun space =>
    absurd (space closeSquare (List.mem_singleton_self _)) (by decide)
  refine ⟨?_, others [closeSquare] tooMuch, cut _ (List.take_prefix ..) (by decide),
    unfinished hasKnownNames_mixedForms _ (List.take_prefix ..) (by decide), ?_⟩
  · exact (blanks [0x0A] (Json.allSpace_singleton (by decide))).trans ofJson_mixedForms.symm
  · refine framing.2 (forExecutable "1") [] (List.nil_prefix) fun same => ?_
    have bracket := endsWithBracket_render (forExecutable "1")
    rw [← same] at bracket
    exact bracket.elim (absurd · (by decide)) (absurd · (by decide))

end Descriptor

end BundlePacker
