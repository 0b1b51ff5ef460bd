import BundlePacker.Proofs.Bundle.Confinement
import BundlePacker.Proofs.Bundle.Effect
import BundlePacker.Proofs.Path.Spelling

/-!
# Paths that lie beside each other

A version can be any text, and with its slashes and dots the two paths of a bundle may wander
through any directories.  But the name of a bundle begins with letters, so that it never replaces
the base, and it ends in letters behind the last slash, so that the last component of each path is a
name.  These last names end differently, whatever the version is.

The main statement is about components alone, and so about no file system: below every base the
staging directory and the archive of a version lie beside each other, and no staging directory is
the archive of any version.
-/

namespace BundlePacker

open FileSystem

namespace Path

/-! ## Components below any base -/

/-- Names are segments that are not empty, and an empty segment stands for no component. -/
theorem filterMap_names (path : Path) :
    path.names.filterMap Component.ofSegment? =
      (segments path.bytes).filterMap Component.ofSegment? := by
  rw [names, List.filterMap_filter]
  congr 1
  funext segment
  by_cases empty : segment = []
  · simp [empty, Component.ofSegment?]
  · simp [empty]

/-- All components of a relative path that does not begin with a dot are those of its names. -/
theorem components_of_relative {path : Path} (relative : path.isAbsolute = false)
    (undotted : path.bytes.head? ≠ some dot) :
    path.components = path.names.filterMap Component.ofSegment? := by
  rw [filterMap_names]
  rcases path with ⟨- | ⟨byte, rest⟩⟩
  · rfl
  · have noSlash : byte ≠ slash := by simpa [isAbsolute] using relative
    have noDot : byte ≠ dot := by simpa using undotted
    cases pieces : segments (byte :: rest) with
    | nil =>
        exact absurd pieces (segments_ne_nil _)
    | cons first others =>
        rcases head_of_segments noSlash pieces with ⟨more, rfl⟩
        have whole : byte :: more ≠ [dot] := by simp [noDot]
        rw [components_eq (by simp) pieces, leading, if_neg (List.cons_ne_nil byte more),
          Component.ofFirstSegment?, if_neg whole, List.filterMap_cons]
        cases Component.ofSegment? (byte :: more) <;> rfl

/-- Such a path adds its components to those of every base, also to those of the empty one. -/
theorem components_join_of_relative (base : Path) {path : Path}
    (relative : path.isAbsolute = false) (undotted : path.bytes.head? ≠ some dot) :
    (base.join path).components =
      base.components ++ path.names.filterMap Component.ofSegment? := by
  by_cases empty : base.bytes = []
  · rw [join_of_nil empty, components_eq_nil_iff.mpr empty, List.nil_append,
      components_of_relative relative undotted]
  · rw [components_join empty relative, filterMap_names]

theorem filterMap_name {name : Name} (nonempty : name ≠ []) (neSelf : name ≠ selfName)
    (neParent : name ≠ parentName) : [name].filterMap Component.ofSegment? = [.name name] := by
  have neDot : name ≠ [dot] := neSelf
  have neDots : name ≠ [dot, dot] := neParent
  simp [Component.ofSegment?, nonempty, neDot, neDots]

/--
Whether two paths have the components of a base, then the same further ones, and then different
names.
-/
structure Beside (base first second : Path) : Prop where
  belowFirst : base.components <+: first.components ∧ first.components ≠ base.components
  belowSecond : base.components <+: second.components ∧ second.components ≠ base.components
  together : first.components.dropLast = second.components.dropLast
  names : ∃ one other, first.fileName? = some one ∧ second.fileName? = some other ∧ one ≠ other ∧
    ∀ name ∈ [one, other], name ≠ selfName ∧ name ≠ parentName
  notAbove : ¬ first.components <+: second.components
  notBelow : ¬ second.components <+: first.components

theorem fileName?_of_components {path : Path} {before : List Component} {name : Name}
    (shape : path.components = before ++ [.name name]) : path.fileName? = some name := by
  rw [fileName?, shape, List.getLast?_concat]

theorem not_prefix_of_last {before : List Component} {one other : Name} (differs : one ≠ other) :
    ¬ before ++ [Component.name one] <+: before ++ [Component.name other] := by
  intro inside
  have same := inside.eq_of_length (by simp)
  rw [List.append_cancel_left_eq, List.cons.injEq, Component.name.injEq] at same
  exact differs same.1

theorem beside_of_components {base first second : Path} {inner : List Component}
    {one other : Name} (shape : first.components = base.components ++ (inner ++ [.name one]))
    (shapeSecond : second.components = base.components ++ (inner ++ [.name other]))
    (differs : one ≠ other)
    (proper : ∀ name ∈ [one, other], name ≠ selfName ∧ name ≠ parentName) :
    Beside base first second := by
  have whole := shape
  have wholeSecond := shapeSecond
  rw [← List.append_assoc] at whole wholeSecond
  refine ⟨⟨?_, ?_⟩, ⟨?_, ?_⟩, ?_, ⟨one, other, ?_, ?_, differs, proper⟩, ?_, ?_⟩
  · rw [shape]
    exact List.prefix_append ..
  · simp [shape]
  · rw [shapeSecond]
    exact List.prefix_append ..
  · simp [shapeSecond]
  · rw [whole, wholeSecond, List.dropLast_concat, List.dropLast_concat]
  · exact fileName?_of_components whole
  · exact fileName?_of_components wholeSecond
  · rw [whole, wholeSecond]
    exact not_prefix_of_last differs
  · rw [whole, wholeSecond]
    exact not_prefix_of_last differs.symm

end Path

namespace Bundle

open BundlePacker.Path (Component Beside)

variable {version other : String}

/-! ## The last names of a version -/

/-- The components that a version puts between the base and the last names. -/
def wayComponents (version : String) : List Component :=
  (way version).filterMap Component.ofSegment?

theorem head?_ofString (text : String) :
    (Path.ofString (Descriptor.artifactName ++ "-" ++ text)).bytes.head? ≠ some Path.dot := by
  have begins : Utf8.ofString Descriptor.artifactName = 0x73 :: [0x75, 0x72] := rfl
  simp [Path.ofString, Utf8.ofString_append, begins, Path.dot]

/-- What is written after a version and has no slash ends the last component, which is a name. -/
theorem components_ofString (base : Path) {ending : String}
    (clean : Path.slash ∉ Utf8.ofString ending) (long : 2 < (Utf8.ofString ending).length) :
    ∃ piece,
      (base.join (.ofString (Descriptor.artifactName ++ "-" ++ (version ++ ending)))).components =
          base.components ++ (wayComponents version ++ [.name (piece ++ Utf8.ofString ending)]) ∧
        piece ++ Utf8.ofString ending ≠ selfName ∧
        piece ++ Utf8.ofString ending ≠ parentName := by
  rcases @names_ofString version _ clean long with ⟨piece, names, neSelf, neParent⟩
  refine ⟨piece, ?_, neSelf, neParent⟩
  have nonempty : piece ++ Utf8.ofString ending ≠ [] := by
    intro empty
    rw [(List.append_eq_nil_iff.mp empty).2] at long
    simp at long
  rw [Path.components_join_of_relative base (isAbsolute_ofString _) (head?_ofString _), names,
    List.filterMap_append, Path.filterMap_name nonempty neSelf neParent, wayComponents]

theorem components_stagingPath (base : Path) (version : String) :
    ∃ piece, (stagingPath base version).components =
        base.components ++ (wayComponents version ++
          [.name (piece ++ Utf8.ofString (".artifactbundle" ++ "_bundle"))]) ∧
      piece ++ Utf8.ofString (".artifactbundle" ++ "_bundle") ≠ selfName ∧
      piece ++ Utf8.ofString (".artifactbundle" ++ "_bundle") ≠ parentName := by
  rw [stagingPath, stagingName_eq]
  exact components_ofString base (by decide) (by decide)

theorem components_archivePath (base : Path) (version : String) :
    ∃ piece, (archivePath base version).components =
        base.components ++ (wayComponents version ++
          [.name (piece ++ Utf8.ofString (".artifactbundle" ++ ".zip"))]) ∧
      piece ++ Utf8.ofString (".artifactbundle" ++ ".zip") ≠ selfName ∧
      piece ++ Utf8.ofString (".artifactbundle" ++ ".zip") ≠ parentName := by
  rw [archivePath, archiveName_eq]
  exact components_ofString base (by decide) (by decide)

/-- The last letters tell the name of a staging directory from that of an archive. -/
theorem append_ending_ne (piece another : Bytes) :
    piece ++ Utf8.ofString (".artifactbundle" ++ "_bundle") ≠
      another ++ Utf8.ofString (".artifactbundle" ++ ".zip") := by
  intro same
  have staging : Utf8.ofString (".artifactbundle" ++ "_bundle") ≠ [] := by decide
  have archive : Utf8.ofString (".artifactbundle" ++ ".zip") ≠ [] := by decide
  have last := congrArg List.getLast? same
  rw [List.getLast?_append_of_ne_nil _ staging, List.getLast?_append_of_ne_nil _ archive] at last
  revert last
  decide

theorem components_join_of_isSegment (base : Path) {text : String}
    (solid : IsSegment (Utf8.ofString (Descriptor.artifactName ++ "-" ++ text))) :
    (base.join (.ofString (Descriptor.artifactName ++ "-" ++ text))).components =
      base.components ++ [.name (Utf8.ofString (Descriptor.artifactName ++ "-" ++ text))] := by
  rw [Path.components_join_of_relative base (isAbsolute_ofString _) (head?_ofString _),
    Path.ofString, names_of_isSegment solid,
    Path.filterMap_name solid.nonempty solid.neSelf solid.neParent]

/-- A version without slashes adds one component to the base. -/
theorem components_stagingPath_of_noSlash (base : Path) (noSlash : '/' ∉ version.toList) :
    (stagingPath base version).components =
      base.components ++ [.name (Utf8.ofString (stagingName version))] := by
  have solid := isSegment_stagingName noSlash
  rw [stagingPath, stagingName_eq] at *
  exact components_join_of_isSegment base solid

theorem components_archivePath_of_noSlash (base : Path) (noSlash : '/' ∉ version.toList) :
    (archivePath base version).components =
      base.components ++ [.name (Utf8.ofString (archiveName version))] := by
  have solid := isSegment_archiveName noSlash
  rw [archivePath, archiveName_eq] at *
  exact components_join_of_isSegment base solid

/-- Two names that are written behind one base differ when their texts do. -/
theorem text_eq_of_components {base : List Component} {text another : String}
    (same : base ++ [Component.name (Utf8.ofString text)] =
      base ++ [Component.name (Utf8.ofString another)]) : text = another := by
  rw [List.append_cancel_left_eq, List.cons.injEq, Component.name.injEq] at same
  exact Utf8.ofString_injective same.1

/-! ## Staging directories and archives -/

/--
The staging directory and the archive of a version lie beside each other below the base, for every
base and every version; no staging directory is an archive, of the same version or another one; and
versions without slashes add one component each, with different ones for different versions.
-/
theorem paths_beside (base : Path) (version : String) :
    Beside base (stagingPath base version) (archivePath base version) ∧
      (∀ elsewhere other,
        (stagingPath base version).components ≠ (archivePath elsewhere other).components) ∧
      ('/' ∉ version.toList →
        (∃ name, (stagingPath base version).components = base.components ++ [.name name]) ∧
        (∃ name, (archivePath base version).components = base.components ++ [.name name]) ∧
        ∀ other, '/' ∉ other.toList → version ≠ other →
          (stagingPath base version).components ≠ (stagingPath base other).components ∧
          (archivePath base version).components ≠ (archivePath base other).components) := by
  rcases components_stagingPath base version with ⟨piece, staging, properStaging⟩
  refine ⟨?_, ?_, ?_⟩
  · rcases components_archivePath base version with ⟨another, archive, properArchive⟩
    refine Path.beside_of_components staging archive (append_ending_ne piece another) ?_
    intro name member
    rcases List.mem_pair.mp member with rfl | rfl
    · exact properStaging
    · exact properArchive
  · intro elsewhere other same
    rcases components_archivePath elsewhere other with ⟨another, archive, -⟩
    have names := congrArg List.getLast? same
    rw [staging, archive, ← List.append_assoc, ← List.append_assoc, List.getLast?_concat,
      List.getLast?_concat, Option.some.injEq, Component.name.injEq] at names
    exact append_ending_ne piece another names
  · intro noSlash
    have own := components_stagingPath_of_noSlash base noSlash
    have ownArchive := components_archivePath_of_noSlash base noSlash
    refine ⟨⟨_, own⟩, ⟨_, ownArchive⟩, fun other noSlashOther differs => ⟨?_, ?_⟩⟩
    · intro same
      rw [own, components_stagingPath_of_noSlash base noSlashOther] at same
      exact differs (stagingName_injective (text_eq_of_components same))
    · intro same
      rw [ownArchive, components_archivePath_of_noSlash base noSlashOther] at same
      exact differs (archiveName_injective (text_eq_of_components same))

/-- A version that ends as a staging directory does, and the one that this leaves, stay apart. -/
theorem paths_beside_imitated :
    '/' ∉ "1".toList ∧ '/' ∉ "1.artifactbundle_bundle".toList ∧
      "1" ≠ "1.artifactbundle_bundle" ∧
      (stagingPath (.ofString "./b//") "1").components ≠
        (stagingPath (.ofString "./b//") "1.artifactbundle_bundle").components ∧
      (archivePath (.ofString "./b//") "1").components ≠
        (archivePath (.ofString "./b//") "1.artifactbundle_bundle").components := by
  have noSlash : '/' ∉ "1".toList := by decide
  have noSlashOther : '/' ∉ "1.artifactbundle_bundle".toList := by decide
  have differs : "1" ≠ "1.artifactbundle_bundle" := by decide
  rcases (paths_beside (.ofString "./b//") "1").2.2 noSlash with ⟨-, -, apart⟩
  exact ⟨noSlash, noSlashOther, differs, apart _ noSlashOther differs⟩

end Bundle

end BundlePacker
