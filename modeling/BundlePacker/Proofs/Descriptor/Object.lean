import Mathlib
import BundlePacker.Descriptor.Reader
import BundlePacker.Proofs.Json.Fields

/-!
# Descriptors, artifacts and variants as objects

The three kinds of records are read from objects alike.  For each of them this module says which
members its objects may have: under the names of its fields, texts that are values of the fields on
their own, and under other names any values of JSON.

The main statement settles what becomes of such an object, however it is spelled.
-/

namespace BundlePacker

open Json (Member ObjectOutcome quote openSquare closeSquare openCurly closeCurly listText
  objectText spells_encode)

/-! ## Variants -/

namespace Variant

/-- Whether a member can stand in the object of a variant under a name. -/
structure IsMember (name : String) (member : Member) : Prop where
  spells : Json.Spells member.spelling name.toList
  path : name = "path" → ∃ path, Json.text.readAll member.value = .ok path
  supportedTriples : name = "supportedTriples" →
    ∃ triples, (Json.list Triple.reader).readAll member.value = .ok triples
  unknown : name ≠ "path" → name ≠ "supportedTriples" → Json.IsValue member.value

/-- Whether members give the fields of a variant. -/
structure IsGivenBy (members : List (String × Member)) (variant : Variant) : Prop where
  path : ∃ member, ("path", member) ∈ members ∧
    Json.text.readAll member.value = .ok variant.path
  supportedTriples : ∃ member, ("supportedTriples", member) ∈ members ∧
    (Json.list Triple.reader).readAll member.value = .ok variant.supportedTriples

theorem slot_path : record.Slot "path" Json.text Draft.path :=
  Json.Record.Slot.of_fields [] [_] rfl (by decide) rfl (fun _ => rfl)
    (fun _ _ => rfl) (List.forall_mem_singleton.mpr (Json.Record.keeps_of_map fun _ _ => rfl))

theorem slot_supportedTriples :
    record.Slot "supportedTriples" (Json.list Triple.reader) Draft.supportedTriples :=
  Json.Record.Slot.of_fields [_] [] rfl (by decide) rfl (fun _ => rfl)
    (fun _ _ => rfl) (List.forall_mem_singleton.mpr (Json.Record.keeps_of_map fun _ _ => rfl))

theorem triples_isFramed : (Json.list Triple.reader).IsFramed :=
  Json.list_isFramed (Json.oneOf_endsItself _).isLocal

theorem isLawful : record.IsLawful where
  framed := List.forall_mem_cons.mpr
    ⟨Json.text_isFramed.map _, List.forall_mem_singleton.mpr (triples_isFramed.map _)⟩
  slots := List.forall_mem_cons.mpr
    ⟨⟨_, _, _, slot_path⟩, List.forall_mem_singleton.mpr ⟨_, _, _, slot_supportedTriples⟩⟩
  missing := by
    rintro ⟨_ | path, _ | triples⟩ field found <;> cases found <;> rfl
  made := by
    rintro ⟨_ | path, _ | triples⟩ all <;> cases all
    exact ⟨_, rfl⟩

theorem IsMember.fits {name : String} {member : Member} (isMember : IsMember name member) :
    record.Fits name member where
  spells := isMember.spells
  known := by
    refine List.forall_mem_cons.mpr ⟨fun same => ?_, List.forall_mem_singleton.mpr fun same => ?_⟩
    · rcases isMember.path same.symm with ⟨path, reads⟩
      exact ⟨_, Json.Reader.readAll_map_eq_ok_iff.mpr ⟨path, reads, rfl⟩⟩
    · rcases isMember.supportedTriples same.symm with ⟨triples, reads⟩
      exact ⟨_, Json.Reader.readAll_map_eq_ok_iff.mpr ⟨triples, reads, rfl⟩⟩
  unknown absent := by
    have others : ¬ (name = "path" ∨ name = "supportedTriples") := by
      simpa [Json.Record.names, record] using absent
    exact isMember.unknown (fun same => others (.inl same)) fun same => others (.inr same)

theorem parts_of_finish {draft : Draft} {variant : Variant}
    (finished : record.finish draft = .ok variant) :
    draft = ⟨some variant.path, some variant.supportedTriples⟩ := by
  rcases draft with ⟨_ | path, _ | triples⟩ <;> cases finished
  rfl

theorem isGivenBy_of_filled {members : List (String × Member)} {draft : Draft} {variant : Variant}
    (filled : record.Filled record.blank members draft)
    (finished : record.finish draft = .ok variant) : IsGivenBy members variant := by
  cases parts_of_finish finished
  exact
    { path := Json.exists_of_memberValue? (filled slot_path).symm
      supportedTriples := Json.exists_of_memberValue? (filled slot_supportedTriples).symm }

end Variant

/-! ## Artifacts -/

namespace Artifact

/-- Whether a member can stand in the object of an artifact under a name. -/
structure IsMember (name : String) (member : Member) : Prop where
  spells : Json.Spells member.spelling name.toList
  version : name = "version" → ∃ version, Json.text.readAll member.value = .ok version
  kind : name = "type" → ∃ kind, ArtifactKind.reader.readAll member.value = .ok kind
  variants : name = "variants" →
    ∃ variants, (Json.list Variant.record.reader).readAll member.value = .ok variants
  unknown : name ≠ "version" → name ≠ "type" → name ≠ "variants" → Json.IsValue member.value

/-- Whether members give the fields of an artifact. -/
structure IsGivenBy (members : List (String × Member)) (artifact : Artifact) : Prop where
  version : ∃ member, ("version", member) ∈ members ∧
    Json.text.readAll member.value = .ok artifact.version
  kind : ∃ member, ("type", member) ∈ members ∧
    ArtifactKind.reader.readAll member.value = .ok artifact.kind
  variants : ∃ member, ("variants", member) ∈ members ∧
    (Json.list Variant.record.reader).readAll member.value = .ok artifact.variants

theorem slot_version : record.Slot "version" Json.text Draft.version :=
  Json.Record.Slot.of_fields [] [_, _] rfl (by decide) rfl (fun _ => rfl) (fun _ _ => rfl)
    (List.forall_mem_cons.mpr ⟨Json.Record.keeps_of_map fun _ _ => rfl,
      List.forall_mem_singleton.mpr (Json.Record.keeps_of_map fun _ _ => rfl)⟩)

theorem slot_kind : record.Slot "type" ArtifactKind.reader Draft.kind :=
  Json.Record.Slot.of_fields [_] [_] rfl (by decide) rfl (fun _ => rfl) (fun _ _ => rfl)
    (List.forall_mem_cons.mpr ⟨Json.Record.keeps_of_map fun _ _ => rfl,
      List.forall_mem_singleton.mpr (Json.Record.keeps_of_map fun _ _ => rfl)⟩)

theorem slot_variants :
    record.Slot "variants" (Json.list Variant.record.reader) Draft.variants :=
  Json.Record.Slot.of_fields [_, _] [] rfl (by decide) rfl (fun _ => rfl)
    (fun _ _ => rfl) (List.forall_mem_cons.mpr ⟨Json.Record.keeps_of_map fun _ _ => rfl,
      List.forall_mem_singleton.mpr (Json.Record.keeps_of_map fun _ _ => rfl)⟩)

theorem variants_isFramed : (Json.list Variant.record.reader).IsFramed :=
  Json.list_isFramed Variant.isLawful.reader_isFramed.ends.isLocal

theorem isLawful : record.IsLawful where
  framed := List.forall_mem_cons.mpr ⟨Json.text_isFramed.map _, List.forall_mem_cons.mpr
    ⟨(Json.oneOf_isFramed _).map _, List.forall_mem_singleton.mpr (variants_isFramed.map _)⟩⟩
  slots := List.forall_mem_cons.mpr ⟨⟨_, _, _, slot_version⟩, List.forall_mem_cons.mpr
    ⟨⟨_, _, _, slot_kind⟩, List.forall_mem_singleton.mpr ⟨_, _, _, slot_variants⟩⟩⟩
  missing := by
    rintro ⟨_ | version, _ | kind, _ | variants⟩ field found <;> cases found <;> rfl
  made := by
    rintro ⟨_ | version, _ | kind, _ | variants⟩ all <;> cases all
    exact ⟨_, rfl⟩

theorem IsMember.fits {name : String} {member : Member} (isMember : IsMember name member) :
    record.Fits name member where
  spells := isMember.spells
  known := by
    refine List.forall_mem_cons.mpr ⟨fun same => ?_, List.forall_mem_cons.mpr
      ⟨fun same => ?_, List.forall_mem_singleton.mpr fun same => ?_⟩⟩
    · rcases isMember.version same.symm with ⟨version, reads⟩
      exact ⟨_, Json.Reader.readAll_map_eq_ok_iff.mpr ⟨version, reads, rfl⟩⟩
    · rcases isMember.kind same.symm with ⟨kind, reads⟩
      exact ⟨_, Json.Reader.readAll_map_eq_ok_iff.mpr ⟨kind, reads, rfl⟩⟩
    · rcases isMember.variants same.symm with ⟨variants, reads⟩
      exact ⟨_, Json.Reader.readAll_map_eq_ok_iff.mpr ⟨variants, reads, rfl⟩⟩
  unknown absent := by
    have others : ¬ (name = "version" ∨ name = "type" ∨ name = "variants") := by
      simpa [Json.Record.names, record] using absent
    exact isMember.unknown (fun same => others (.inl same))
      (fun same => others (.inr (.inl same))) fun same => others (.inr (.inr same))

theorem parts_of_finish {draft : Draft} {artifact : Artifact}
    (finished : record.finish draft = .ok artifact) :
    draft = ⟨some artifact.version, some artifact.kind, some artifact.variants⟩ := by
  rcases draft with ⟨_ | version, _ | kind, _ | variants⟩ <;> cases finished
  rfl

theorem isGivenBy_of_filled {members : List (String × Member)} {draft : Draft}
    {artifact : Artifact} (filled : record.Filled record.blank members draft)
    (finished : record.finish draft = .ok artifact) : IsGivenBy members artifact := by
  cases parts_of_finish finished
  exact
    { version := Json.exists_of_memberValue? (filled slot_version).symm
      kind := Json.exists_of_memberValue? (filled slot_kind).symm
      variants := Json.exists_of_memberValue? (filled slot_variants).symm }

end Artifact

/-! ## Descriptors -/

namespace Descriptor

/-- Whether a member can stand in the object of a descriptor under a name. -/
structure IsMember (name : String) (member : Member) : Prop where
  spells : Json.Spells member.spelling name.toList
  schemaVersion : name = "schemaVersion" → ∃ version, Json.text.readAll member.value = .ok version
  artifacts : name = "artifacts" →
    ∃ artifacts, (Json.map Artifact.record.reader).readAll member.value = .ok artifacts
  unknown : name ≠ "schemaVersion" → name ≠ "artifacts" → Json.IsValue member.value

/-- Whether members give the fields of a descriptor. -/
structure IsGivenBy (members : List (String × Member)) (descriptor : Descriptor) : Prop where
  schemaVersion : ∃ member, ("schemaVersion", member) ∈ members ∧
    Json.text.readAll member.value = .ok descriptor.schemaVersion
  artifacts : ∃ member, ("artifacts", member) ∈ members ∧
    (Json.map Artifact.record.reader).readAll member.value = .ok descriptor.artifacts

theorem slot_schemaVersion : record.Slot "schemaVersion" Json.text Draft.schemaVersion :=
  Json.Record.Slot.of_fields [] [_] rfl (by decide) rfl (fun _ => rfl)
    (fun _ _ => rfl) (List.forall_mem_singleton.mpr (Json.Record.keeps_of_map fun _ _ => rfl))

theorem slot_artifacts :
    record.Slot "artifacts" (Json.map Artifact.record.reader) Draft.artifacts :=
  Json.Record.Slot.of_fields [_] [] rfl (by decide) rfl (fun _ => rfl)
    (fun _ _ => rfl) (List.forall_mem_singleton.mpr (Json.Record.keeps_of_map fun _ _ => rfl))

theorem artifacts_isFramed : (Json.map Artifact.record.reader).IsFramed :=
  Json.map_isFramed Artifact.isLawful.reader_isFramed.ends.isLocal

theorem isLawful : record.IsLawful where
  framed := List.forall_mem_cons.mpr
    ⟨Json.text_isFramed.map _, List.forall_mem_singleton.mpr (artifacts_isFramed.map _)⟩
  slots := List.forall_mem_cons.mpr
    ⟨⟨_, _, _, slot_schemaVersion⟩, List.forall_mem_singleton.mpr ⟨_, _, _, slot_artifacts⟩⟩
  missing := by
    rintro ⟨_ | version, _ | artifacts⟩ field found <;> cases found <;> rfl
  made := by
    rintro ⟨_ | version, _ | artifacts⟩ all <;> cases all
    exact ⟨_, rfl⟩

theorem IsMember.fits {name : String} {member : Member} (isMember : IsMember name member) :
    record.Fits name member where
  spells := isMember.spells
  known := by
    refine List.forall_mem_cons.mpr ⟨fun same => ?_, List.forall_mem_singleton.mpr fun same => ?_⟩
    · rcases isMember.schemaVersion same.symm with ⟨version, reads⟩
      exact ⟨_, Json.Reader.readAll_map_eq_ok_iff.mpr ⟨version, reads, rfl⟩⟩
    · rcases isMember.artifacts same.symm with ⟨artifacts, reads⟩
      exact ⟨_, Json.Reader.readAll_map_eq_ok_iff.mpr ⟨artifacts, reads, rfl⟩⟩
  unknown absent := by
    have others : ¬ (name = "schemaVersion" ∨ name = "artifacts") := by
      simpa [Json.Record.names, record] using absent
    exact isMember.unknown (fun same => others (.inl same)) fun same => others (.inr same)

theorem parts_of_finish {draft : Draft} {descriptor : Descriptor}
    (finished : record.finish draft = .ok descriptor) :
    draft = ⟨some descriptor.schemaVersion, some descriptor.artifacts⟩ := by
  rcases draft with ⟨_ | version, _ | artifacts⟩ <;> cases finished
  rfl

theorem isGivenBy_of_filled {members : List (String × Member)} {draft : Draft}
    {descriptor : Descriptor} (filled : record.Filled record.blank members draft)
    (finished : record.finish draft = .ok descriptor) : IsGivenBy members descriptor := by
  cases parts_of_finish finished
  exact
    { schemaVersion := Json.exists_of_memberValue? (filled slot_schemaVersion).symm
      artifacts := Json.exists_of_memberValue? (filled slot_artifacts).symm }

end Descriptor

/-! ## What becomes of an object -/

/--
An object whose members can stand in it is an error about its first repeated field, else about its
first missing field, and else it is made of the values of its members.
-/
theorem Descriptor.outcome_of_objects (members : List (String × Member))
    (before gap after : Json.Blanks) :
    ((∀ pair ∈ members, Descriptor.IsMember pair.1 pair.2) →
      ObjectOutcome ["schemaVersion", "artifacts"] (members.map Prod.fst)
        (Descriptor.IsGivenBy members)
        (Descriptor.ofJson
          (before.bytes ++ (objectText gap (members.map Prod.snd) ++ after.bytes)))) ∧
    ((∀ pair ∈ members, Artifact.IsMember pair.1 pair.2) →
      ObjectOutcome ["version", "type", "variants"] (members.map Prod.fst)
        (Artifact.IsGivenBy members)
        (Artifact.ofJson
          (before.bytes ++ (objectText gap (members.map Prod.snd) ++ after.bytes)))) ∧
    ((∀ pair ∈ members, Variant.IsMember pair.1 pair.2) →
      ObjectOutcome ["path", "supportedTriples"] (members.map Prod.fst)
        (Variant.IsGivenBy members)
        (Variant.ofJson
          (before.bytes ++ (objectText gap (members.map Prod.snd) ++ after.bytes)))) := by
  refine ⟨fun each => ?_, fun each => ?_, fun each => ?_⟩
  · refine (Json.Record.objectOutcome Descriptor.isLawful
      (fun pair inside => (each pair inside).fits) before gap after).imp ?_
    rintro descriptor ⟨draft, finished, filled⟩
    exact Descriptor.isGivenBy_of_filled filled finished
  · refine (Json.Record.objectOutcome Artifact.isLawful (fun pair inside => (each pair inside).fits)
      before gap after).imp ?_
    rintro artifact ⟨draft, finished, filled⟩
    exact Artifact.isGivenBy_of_filled filled finished
  · refine (Json.Record.objectOutcome Variant.isLawful (fun pair inside => (each pair inside).fits)
      before gap after).imp ?_
    rintro variant ⟨draft, finished, filled⟩
    exact Variant.isGivenBy_of_filled filled finished

/-- A variant, an artifact and a descriptor: a field is missing, one is repeated, and neither. -/
theorem Descriptor.outcome_of_three_objects :
    ObjectOutcome ["path", "supportedTriples"] ["notes", "path"]
        (Variant.IsGivenBy
          [("notes", .plain "notes" (listText .none [⟨.none, objectText .none [], .none⟩])),
            ("path", { Member.plain "path" [quote, quote] with
              spelling := Utf8.ofString "p\\u0061th" })])
        (Variant.ofJson (Utf8.ofString "\x7b\"notes\":[\x7b\x7d],\"p\\u0061th\":\"\"\x7d")) ∧
    ObjectOutcome ["version", "type", "variants"] ["variants", "variants"]
        (Artifact.IsGivenBy
          [("variants", .plain "variants" [openSquare, closeSquare]),
            ("variants", .plain "variants" [openSquare, closeSquare])])
        (Artifact.ofJson (Utf8.ofString "\x7b\"variants\":[],\"variants\":[]\x7d")) ∧
    ObjectOutcome ["schemaVersion", "artifacts"] ["artifacts", "schemaVersion"]
        (Descriptor.IsGivenBy
          [("artifacts", .plain "artifacts" [openCurly, closeCurly]),
            ("schemaVersion", .plain "schemaVersion" [quote, quote])])
        (Descriptor.ofJson (Utf8.ofString "\x7b\"artifacts\":\x7b\x7d,\"schemaVersion\":\"\"\x7d")) := by
  refine ⟨?_, ?_, ?_⟩
  · refine (Descriptor.outcome_of_objects
      [("notes", .plain "notes" (listText .none [⟨.none, objectText .none [], .none⟩])),
        ("path", { Member.plain "path" [quote, quote] with
          spelling := Utf8.ofString "p\\u0061th" })] .none .none .none).2.2 ?_
    refine List.forall_mem_cons.mpr ⟨?_, List.forall_mem_singleton.mpr ?_⟩
    · exact
        { spells := spells_encode (by decide)
          path := fun same => absurd same (by simp)
          supportedTriples := fun same => absurd same (by simp)
          unknown := fun _ _ => .list _ _ (List.forall_mem_singleton.mpr
            (.object _ _ (fun _ inside => absurd inside List.not_mem_nil)
              fun _ inside => absurd inside List.not_mem_nil)) }
    · exact
        { spells :=
            .plain (by decide) (by decide) (by decide) (.code (by decide) (spells_encode (by decide)))
          path := fun _ => ⟨"", by cbv⟩
          supportedTriples := fun same => absurd same (by simp)
          unknown := fun differs => absurd rfl differs }
  · refine (Descriptor.outcome_of_objects
      [("variants", .plain "variants" [openSquare, closeSquare]),
        ("variants", .plain "variants" [openSquare, closeSquare])] .none .none .none).2.1 ?_
    have isMember : Artifact.IsMember "variants" (.plain "variants" [openSquare, closeSquare]) :=
      { spells := spells_encode (by decide)
        version := fun same => absurd same (by simp)
        kind := fun same => absurd same (by simp)
        variants := fun _ => ⟨[], by cbv⟩
        unknown := fun _ _ differs => absurd rfl differs }
    exact List.forall_mem_cons.mpr ⟨isMember, List.forall_mem_singleton.mpr isMember⟩
  · refine (Descriptor.outcome_of_objects
      [("artifacts", .plain "artifacts" [openCurly, closeCurly]),
        ("schemaVersion", .plain "schemaVersion" [quote, quote])] .none .none .none).1 ?_
    refine List.forall_mem_cons.mpr ⟨?_, List.forall_mem_singleton.mpr ?_⟩
    · exact
        { spells := spells_encode (by decide)
          schemaVersion := fun same => absurd same (by simp)
          artifacts := fun _ => ⟨∅, by cbv⟩
          unknown := fun _ differs => absurd rfl differs }
    · exact
        { spells := spells_encode (by decide)
          schemaVersion := fun _ => ⟨"", by cbv⟩
          artifacts := fun same => absurd same (by simp)
          unknown := fun differs => absurd rfl differs }

end BundlePacker
