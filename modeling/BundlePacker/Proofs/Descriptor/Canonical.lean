import Mathlib
import BundlePacker.Proofs.Descriptor.Object
import BundlePacker.Proofs.Descriptor.ReadBack
import BundlePacker.Text.Utf8.Order

/-!
# The text of a descriptor is a canonical form

Artifacts may be listed in any order and more than once under a name.  What counts is the last one
of every name: it is what the map of a listing holds, whether the map is made by adding the
artifacts one after the other or read from an object that lists them.  The printer lists the names
in ascending order, and its text is read back.

The main statement concludes that two listings have the same text exactly when they agree on the
last artifact of every name, and two descriptors exactly when they are equal.
-/

namespace BundlePacker

open Json (Member objectText)

namespace Json

variable {α : Type}

/-- Whether a member of an object stands for a name with a value, as a reader takes it. -/
structure StandsFor (reader : Reader α) (pair : String × α) (member : Member) : Prop where
  spells : Spells member.spelling pair.1.toList
  reads : reader.readAll member.value = .ok pair.2

/-- Members are taken up into a map one after the other. -/
theorem takesUp_map {reader : Reader α} (framed : reader.IsFramed) {listing : List (String × α)}
    {members : List Member} (each : List.Forall₂ (StandsFor reader) listing members)
    (gathered : Std.ExtTreeMap String α) :
    TakesUp (fun _ name => .ok (reader.map fun found gathered => gathered.insert name found))
      gathered ((listing.map Prod.fst).zip members)
      (listing.foldl (fun map pair => map.insert pair.1 pair.2) gathered) := by
  induction each generalizing gathered with
  | nil =>
      exact .nil gathered
  | cons stands others hypothesis =>
      exact .cons stands.spells rfl ((framed.takes stands.reads).map _) (hypothesis _)

/-- An object is read as the map that its members make one after the other. -/
theorem readAll_map_objectText {reader : Reader α} (framed : reader.IsFramed)
    {listing : List (String × α)} {members : List Member}
    (each : List.Forall₂ (StandsFor reader) listing members) (before gap after : Blanks) :
    (map reader).readAll (before.bytes ++ (objectText gap members ++ after.bytes)) =
      .ok (listing.foldl (fun map pair => map.insert pair.1 pair.2) ∅) := by
  have sameLength : members.length ≤ (listing.map Prod.fst).length := by
    rw [List.length_map, each.length_eq]
  rcases exists_objectText gap ((listing.map Prod.fst).zip members) after.bytes
    with ⟨inside, shape⟩
  have found := readMembers_object (takesUp_map framed each ∅) gap shape
  rw [List.map_snd_zip sameLength] at shape
  have token : isSpace openCurly = false := by decide
  refine Reader.readAll_eq_ok_iff.mpr ⟨after.bytes, after.space, ?_⟩
  rw [shape]
  simp only [map, skipSpace_append_cons before.space token, if_true, found]

end Json

namespace Descriptor

/-! ## Listings of artifacts -/

/-- The last artifact that a listing has under a name. -/
def lastArtifact? (listing : List (String × Artifact)) (name : String) : Option Artifact :=
  listing.reverse.lookup name

/-- The map of a listing holds the last artifact of every name. -/
theorem getElem?_artifactsOf (listing : List (String × Artifact)) (name : String) :
    (artifactsOf listing)[name]? = lastArtifact? listing name := by
  induction listing using List.reverseRecOn with
  | nil =>
      simp [artifactsOf, lastArtifact?]
  | append_singleton earlier pair hypothesis =>
      have added : artifactsOf (earlier ++ [pair]) = (artifactsOf earlier).insert pair.1 pair.2 := by
        simp [artifactsOf]
      rw [added, Std.ExtTreeMap.getElem?_insert, hypothesis, lastArtifact?, lastArtifact?,
        List.reverse_append, List.reverse_singleton, List.singleton_append, List.lookup_cons]
      by_cases same : pair.1 = name
      · simp [same]
      · simp [same, beq_false_of_ne (Ne.symm same)]

theorem artifactsOf_eq_iff {first second : List (String × Artifact)} :
    artifactsOf first = artifactsOf second ↔
      ∀ name, lastArtifact? first name = lastArtifact? second name := by
  constructor
  · intro same name
    rw [← getElem?_artifactsOf, ← getElem?_artifactsOf, same]
  · intro agree
    apply Std.ExtTreeMap.ext_getElem?
    intro name
    rw [getElem?_artifactsOf, getElem?_artifactsOf, agree]

/-- The artifacts of a descriptor are those of the listing in its text. -/
theorem ofJson_listing {version : String} {listing : List (String × Artifact)}
    {members : List Member}
    (each : List.Forall₂ (Json.StandsFor Artifact.record.reader) listing members)
    {versionMember artifactsMember : Member}
    (isVersion : Json.StandsFor Json.text ("schemaVersion", version) versionMember)
    (spells : Json.Spells artifactsMember.spelling "artifacts".toList)
    {lead inner trail : Json.Blanks}
    (lists : artifactsMember.value = lead.bytes ++ (objectText inner members ++ trail.bytes))
    (before gap after : Json.Blanks) :
    ofJson (before.bytes ++ (objectText gap [versionMember, artifactsMember] ++ after.bytes)) =
      .ok ⟨version, artifactsOf listing⟩ := by
  have artifacts : (Json.map Artifact.record.reader).readAll artifactsMember.value =
      .ok (artifactsOf listing) := by
    rw [lists]
    exact Json.readAll_map_objectText Artifact.isLawful.reader_isFramed each lead inner trail
  have takesUp : Json.TakesUp record.gather record.blank
      [("schemaVersion", versionMember), ("artifacts", artifactsMember)]
      ⟨some version, some (artifactsOf listing)⟩ :=
    .cons isVersion.spells rfl ((Json.text_isFramed.takes isVersion.reads).map _)
      (.cons spells rfl ((artifacts_isFramed.takes artifacts).map _) (.nil _))
  exact Json.Record.readAll_of_takesUp takesUp before gap after

/-! ## Texts of descriptors -/

/-- A descriptor lists its artifacts by ascending name, each name once. -/
theorem pairwise_names (descriptor : Descriptor) :
    descriptor.artifacts.toList.Pairwise fun first second =>
      Utf8.ofString first.1 < Utf8.ofString second.1 := by
  refine List.Pairwise.imp ?_ (Std.ExtTreeMap.ordered_keys_toList (t := descriptor.artifacts))
  intro first second ordered
  exact Utf8.ofString_lt_of_lt (compareOfLessAndEq_eq_lt.mp ordered)

/-- Different descriptors have different texts. -/
theorem eq_iff_render_eq (first second : Descriptor) :
    first = second ↔ Utf8.ofString first.render = Utf8.ofString second.render := by
  constructor
  · rintro rfl
    rfl
  · intro same
    have read := ofJson_render first
    rw [same, ofJson_render second] at read
    exact (Except.ok.inj read).symm

/--
The map of a listing, whether it is made or read, holds the last artifact of every name; the text of
a descriptor lists the names in strictly ascending order of their bytes; and it is a canonical form
of the listing and of whatever text the descriptor is read from.
-/
theorem canonical_render :
    (∀ (listing : List (String × Artifact)) (members : List Member),
      List.Forall₂ (Json.StandsFor Artifact.record.reader) listing members →
        (∀ lead inner trail : Json.Blanks,
          (Json.map Artifact.record.reader).readAll
              (lead.bytes ++ (objectText inner members ++ trail.bytes)) =
            .ok (artifactsOf listing)) ∧
        ∀ (version : String) (versionMember artifactsMember : Member)
          (lead inner trail before gap after : Json.Blanks),
          Json.StandsFor Json.text ("schemaVersion", version) versionMember →
          Json.Spells artifactsMember.spelling "artifacts".toList →
          artifactsMember.value = lead.bytes ++ (objectText inner members ++ trail.bytes) →
            ofJson
                (before.bytes ++ (objectText gap [versionMember, artifactsMember] ++ after.bytes)) =
              .ok ⟨version, artifactsOf listing⟩) ∧
    (∀ (listing : List (String × Artifact)) (name : String),
      (artifactsOf listing)[name]? = lastArtifact? listing name) ∧
    (∀ descriptor : Descriptor, ∃ members : List (String × Json.Document),
      descriptor.toJson =
          .object
            [("schemaVersion", .text descriptor.schemaVersion), ("artifacts", .object members)] ∧
        (members.Pairwise fun first second =>
          Utf8.ofString first.1 < Utf8.ofString second.1) ∧
        ∀ name document, (name, document) ∈ members ↔
          ∃ artifact, descriptor.artifacts[name]? = some artifact ∧ document = artifact.toJson) ∧
    (∀ (version : String) (first second : List (String × Artifact)),
      Utf8.ofString (render ⟨version, artifactsOf first⟩) =
          Utf8.ofString (render ⟨version, artifactsOf second⟩) ↔
        ∀ name, lastArtifact? first name = lastArtifact? second name) ∧
    ∀ (firstText secondText : Bytes) (first second : Descriptor),
      ofJson firstText = .ok first → ofJson secondText = .ok second →
        (first = second ↔ Utf8.ofString first.render = Utf8.ofString second.render) := by
  refine ⟨?_, getElem?_artifactsOf, ?_, ?_, ?_⟩
  · intro listing members each
    refine ⟨Json.readAll_map_objectText Artifact.isLawful.reader_isFramed each, ?_⟩
    intro version versionMember artifactsMember lead inner trail before gap after isVersion spells lists
    exact ofJson_listing each isVersion spells lists before gap after
  · intro descriptor
    refine ⟨descriptor.artifacts.toList.map fun pair => (pair.1, pair.2.toJson), rfl, ?_, ?_⟩
    · exact List.pairwise_map.mpr descriptor.pairwise_names
    · intro name document
      simp only [← Std.ExtTreeMap.mem_toList_iff_getElem?_eq_some, List.mem_map, Prod.exists,
        Prod.mk.injEq]
      constructor
      · rintro ⟨other, artifact, inside, rfl, rfl⟩
        exact ⟨artifact, inside, rfl⟩
      · rintro ⟨artifact, inside, rfl⟩
        exact ⟨name, artifact, inside, rfl, rfl⟩
  · intro version first second
    rw [← eq_iff_render_eq, ← artifactsOf_eq_iff]
    simp
  · intro firstText secondText first second _ _
    exact eq_iff_render_eq first second

/-- Two members of one name, which the second one spells by an escape. -/
def twoVersions : List Member :=
  [.plain "a" (Utf8.ofString "[\"1\",\"executable\",[]]"),
    { Member.plain "a" (Utf8.ofString "[\"2\",\"executable\",[]]") with
      spelling := Utf8.ofString "\\u0061" }]

/-- The second of two artifacts of one name is read, and two descriptors have their own texts. -/
theorem canonical_render_twoVersions :
    ofJson (Utf8.ofString
        "\x7b\"schemaVersion\":\"\",\"artifacts\":\x7b\"a\":[\"1\",\"executable\",[]],\"\\u0061\":[\"2\",\"executable\",[]]\x7d\x7d") =
      .ok ⟨"", artifactsOf [("a", ⟨"1", .executable, []⟩), ("a", ⟨"2", .executable, []⟩)]⟩ ∧
    (artifactsOf [("a", ⟨"1", .executable, []⟩), ("a", ⟨"2", .executable, []⟩)])["a"]? =
      some ⟨"2", .executable, []⟩ ∧
    (forExecutable "1" = forExecutable "2" ↔
      Utf8.ofString (forExecutable "1").render = Utf8.ofString (forExecutable "2").render) := by
  have each : List.Forall₂ (Json.StandsFor Artifact.record.reader)
      [("a", ⟨"1", .executable, []⟩), ("a", ⟨"2", .executable, []⟩)] twoVersions :=
    .cons ⟨Json.spells_encode (by decide), by cbv⟩
      (.cons ⟨.code (by decide) .nil, by cbv⟩ .nil)
  have version : Json.StandsFor Json.text ("schemaVersion", "")
      (.plain "schemaVersion" [Json.quote, Json.quote]) :=
    ⟨Json.spells_encode (by decide), by cbv⟩
  refine ⟨?_, canonical_render.2.1 _ _, ?_⟩
  · exact (canonical_render.1 _ _ each).2 "" _
      (.plain "artifacts" (objectText .none twoVersions)) .none .none .none .none .none .none
      version (Json.spells_encode (by decide)) (by simp [Member.plain, Json.Blanks.none])
  · exact canonical_render.2.2.2.2 _ _ _ _ (ofJson_render _) (ofJson_render _)

end Descriptor

end BundlePacker
