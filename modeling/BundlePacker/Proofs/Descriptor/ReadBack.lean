import BundlePacker.Descriptor.Reader
import BundlePacker.Proofs.Json.ReadBack

/-!
# Descriptors are read back

The readers of platforms, kinds, variants, artifacts and descriptors are put together from the same
parts as the values themselves, so that each reads the document of a value as the value.  The main
statement says so for whole texts: of a descriptor in the layout in which it is stored, and of an
artifact or a variant on one line.
-/

namespace BundlePacker

open Json (ReadsAs Gathers)

theorem Triple.readsAs (triple : Triple) : ReadsAs Triple.reader (.text triple.name) triple := by
  apply Json.readsAs_oneOf
  cases triple <;> rfl

theorem ArtifactKind.readsAs (kind : ArtifactKind) :
    ReadsAs ArtifactKind.reader (.text kind.name) kind := by
  apply Json.readsAs_oneOf
  cases kind
  rfl

/-- A list of values is read back when each of them is. -/
theorem Json.readsAs_list_map {α : Type} {element : Json.Reader α} {toJson : α → Json.Document}
    (reads : ∀ value, ReadsAs element (toJson value) value) (values : List α) :
    ReadsAs (Json.list element) (.list (values.map toJson)) values := by
  apply Json.readsAs_list
  induction values with
  | nil =>
      exact .nil
  | cons value others hypothesis =>
      exact .cons (reads value) hypothesis

/-- Members whose values are read back are taken up into a map one after the other. -/
theorem Json.gathers_map {α : Type} {reader : Json.Reader α} {toJson : α → Json.Document}
    (reads : ∀ value, ReadsAs reader (toJson value) value) (entries : List (String × α))
    (gathered : Std.ExtTreeMap String α) :
    Gathers (fun _ name => .ok (reader.map fun found gathered => gathered.insert name found))
      gathered (entries.map fun pair => (pair.1, toJson pair.2))
      (entries.foldl (fun map pair => map.insert pair.1 pair.2) gathered) := by
  induction entries generalizing gathered with
  | nil =>
      exact Gathers.nil gathered
  | cons pair others hypothesis =>
      exact Gathers.cons rfl ((reads pair.2).map _) (hypothesis _)

theorem Variant.readsAs (variant : Variant) :
    ReadsAs Variant.record.reader variant.toJson variant := by
  have triples : ReadsAs (Json.list Triple.reader)
      (.list (variant.supportedTriples.map fun triple => .text triple.name))
      variant.supportedTriples :=
    Json.readsAs_list_map Triple.readsAs variant.supportedTriples
  have gathers : Gathers Variant.record.gather Variant.record.blank
      [("path", .text variant.path),
        ("supportedTriples",
          .list (variant.supportedTriples.map fun triple => .text triple.name))]
      ⟨some variant.path, some variant.supportedTriples⟩ := by
    apply Gathers.cons rfl ((Json.readsAs_text variant.path).map _)
    apply Gathers.cons rfl (triples.map _)
    exact Gathers.nil _
  exact Json.readsAs_record gathers rfl

theorem Artifact.readsAs (artifact : Artifact) :
    ReadsAs Artifact.record.reader artifact.toJson artifact := by
  have variants : ReadsAs (Json.list Variant.record.reader)
      (.list (artifact.variants.map Variant.toJson)) artifact.variants :=
    Json.readsAs_list_map Variant.readsAs artifact.variants
  have gathers : Gathers Artifact.record.gather Artifact.record.blank
      [("version", .text artifact.version),
        ("type", .text artifact.kind.name),
        ("variants", .list (artifact.variants.map Variant.toJson))]
      ⟨some artifact.version, some artifact.kind, some artifact.variants⟩ := by
    apply Gathers.cons rfl ((Json.readsAs_text artifact.version).map _)
    apply Gathers.cons rfl ((ArtifactKind.readsAs artifact.kind).map _)
    apply Gathers.cons rfl (variants.map _)
    exact Gathers.nil _
  exact Json.readsAs_record gathers rfl

namespace Descriptor

/-- Adding what a map lists, one after the other, makes the map again. -/
theorem artifactsOf_toList (artifacts : Std.ExtTreeMap String Artifact) :
    artifactsOf artifacts.toList = artifacts := by
  rw [artifactsOf, ← Std.ExtTreeMap.ofList_eq_foldl]
  apply Std.ExtTreeMap.ext_getElem?
  intro name
  cases found : artifacts[name]? with
  | none =>
      apply Std.ExtTreeMap.getElem?_ofList_of_contains_eq_false
      have absent : name ∉ artifacts := by
        intro member
        rw [Std.ExtTreeMap.getElem?_eq_some_getElem member] at found
        cases found
      simpa [Std.ExtTreeMap.map_fst_toList_eq_keys] using absent
  | some artifact =>
      apply Std.ExtTreeMap.getElem?_ofList_of_mem Std.ReflCmp.compare_self
        Std.ExtTreeMap.distinct_keys_toList
      exact Std.ExtTreeMap.mem_toList_iff_getElem?_eq_some.mpr found

theorem readsAs (descriptor : Descriptor) :
    ReadsAs Descriptor.record.reader descriptor.toJson descriptor := by
  have artifacts : ReadsAs (Json.map Artifact.record.reader)
      (.object (descriptor.artifacts.toList.map fun pair => (pair.1, pair.2.toJson)))
      descriptor.artifacts := by
    apply Json.readsAs_map
    have gathers := Json.gathers_map Artifact.readsAs descriptor.artifacts.toList ∅
    rwa [← artifactsOf, artifactsOf_toList] at gathers
  have gathers : Gathers Descriptor.record.gather Descriptor.record.blank
      [("schemaVersion", .text descriptor.schemaVersion),
        ("artifacts",
          .object (descriptor.artifacts.toList.map fun pair => (pair.1, pair.2.toJson)))]
      ⟨some descriptor.schemaVersion, some descriptor.artifacts⟩ := by
    apply Gathers.cons rfl ((Json.readsAs_text descriptor.schemaVersion).map _)
    apply Gathers.cons rfl (artifacts.map _)
    exact Gathers.nil _
  exact Json.readsAs_record gathers rfl

/-- The text of a descriptor, as it is stored in a bundle, is read back. -/
theorem ofJson_render (descriptor : Descriptor) :
    ofJson (Utf8.ofString descriptor.render) = .ok descriptor :=
  (readsAs descriptor).readAll_render Json.isBlank_indented

end Descriptor

/-- Whatever is written as JSON is read back: descriptors, artifacts and variants. -/
theorem Descriptor.readBack :
    (∀ descriptor : Descriptor,
      Descriptor.ofJson (Utf8.ofString descriptor.render) = .ok descriptor) ∧
    (∀ artifact : Artifact,
      Artifact.ofJson (Utf8.ofString (artifact.toJson.render .compact)) = .ok artifact) ∧
    ∀ variant : Variant,
      Variant.ofJson (Utf8.ofString (variant.toJson.render .compact)) = .ok variant := by
  refine ⟨Descriptor.ofJson_render, fun artifact => ?_, fun variant => ?_⟩
  · exact (Artifact.readsAs artifact).readAll_render Json.isBlank_compact
  · exact (Variant.readsAs variant).readAll_render Json.isBlank_compact

end BundlePacker
