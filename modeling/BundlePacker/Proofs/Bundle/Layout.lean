import BundlePacker.Bundle
import BundlePacker.Proofs.Archive.Contents

/-!
# How a bundle is laid out

A bundle takes up two names of its base directory, one for the staging directory and one for the
archive.  The staging directory goes through a few states only: it is empty, it has a directory for
the executable, then the executable, then the descriptor.  Each of these states differs from the one
before the run within the staging directory alone, and the last one has exactly two files.
-/

namespace BundlePacker

open FileSystem

/-- The text of a descriptor begins with a brace, so that there is something to write. -/
theorem Descriptor.exists_ofString_render (descriptor : Descriptor) :
    ∃ bytes, Utf8.ofString descriptor.render = 0x7B :: bytes := by
  simp only [Descriptor.render, Json.Document.render, Descriptor.toJson, Json.Document.write,
    Utf8.ofString, String.toList_ofList]
  exact ⟨_, rfl⟩

/-! ## The names of a version -/

theorem slash_mem_ofString {text : String} (member : Path.slash ∈ Utf8.ofString text) :
    '/' ∈ text.toList := by
  rw [Utf8.ofString, Utf8.encode, List.mem_flatMap] at member
  rcases member with ⟨character, inside, byte⟩
  have encodes : Utf8.ofString (String.singleton character) = Utf8.ofString "/" := by
    have only := encodeChar_of_slash_mem byte
    have own : Utf8.encodeChar '/' = [Path.slash] := rfl
    simpa [Utf8.ofString, own] using only
  have same := congrArg String.toList (Utf8.ofString_injective encodes)
  have character_eq : character = '/' := by simpa using same
  exact character_eq ▸ inside

namespace Bundle

variable {version : String}

theorem isSegment_ofString_append {first second : String} {byte : UInt8} {bytes : Bytes}
    (begins : Utf8.ofString first = byte :: bytes) (proper : byte ≠ Path.dot)
    (clean : '/' ∉ (first ++ second).toList) : IsSegment (Utf8.ofString (first ++ second)) := by
  have shape : Utf8.ofString (first ++ second) = byte :: (bytes ++ Utf8.ofString second) := by
    rw [Utf8.ofString_append, begins, List.cons_append]
  refine ⟨by simp [shape], fun member => clean (slash_mem_ofString member), ?_, ?_⟩
  · intro self
    rw [shape, selfName, List.cons.injEq] at self
    exact proper self.1
  · intro parent
    rw [shape, parentName, List.cons.injEq] at parent
    exact proper parent.1

theorem isSegment_name_append {ending : String} (noSlash : '/' ∉ version.toList)
    (clean : '/' ∉ ending.toList) : IsSegment (Utf8.ofString (name version ++ ending)) := by
  have shape : name version ++ ending = "sur-" ++ (version ++ ".artifactbundle" ++ ending) := by
    simp [name, Descriptor.artifactName, String.append_assoc]
  have inside : '/' ∉ ("sur-" ++ (version ++ ".artifactbundle" ++ ending)).toList := by
    simp [noSlash, clean]
  have begins : Utf8.ofString "sur-" = 0x73 :: [0x75, 0x72, 0x2D] := rfl
  rw [shape]
  exact isSegment_ofString_append begins (by decide) inside

/-- The location of the staging directory in a base directory. -/
def stagingLocation (base : Location) (version : String) : Location :=
  base ++ [Utf8.ofString (stagingName version)]

/-- The location of the archive in a base directory. -/
def archiveLocation (base : Location) (version : String) : Location :=
  base ++ [Utf8.ofString (archiveName version)]

theorem stagingLocation_ne_nil (base : Location) (version : String) :
    stagingLocation base version ≠ [] := by
  simp [stagingLocation]

theorem isSegment_stagingName (noSlash : '/' ∉ version.toList) :
    IsSegment (Utf8.ofString (stagingName version)) :=
  isSegment_name_append noSlash (by decide)

theorem isSegment_archiveName (noSlash : '/' ∉ version.toList) :
    IsSegment (Utf8.ofString (archiveName version)) :=
  isSegment_name_append noSlash (by decide)

theorem archiveName_ne_stagingName (version : String) :
    Utf8.ofString (archiveName version) ≠ Utf8.ofString (stagingName version) := by
  intro same
  have names := congrArg String.toList (Utf8.ofString_injective same)
  rw [stagingName, archiveName, String.toList_append, String.toList_append,
    List.append_cancel_left_eq] at names
  revert names
  decide

/-- The archive does not lie in the staging directory. -/
theorem not_prefix_archiveLocation (base : Location) (version : String) :
    ¬ stagingLocation base version <+: archiveLocation base version := by
  intro inside
  have same := inside.eq_of_length (by simp [stagingLocation, archiveLocation])
  rw [stagingLocation, archiveLocation, List.append_cancel_left_eq, List.cons.injEq] at same
  exact archiveName_ne_stagingName version same.1.symm

variable {disk : FileSystem} {base : Location}

theorem stagingPath_eq (wellFormed : disk.WellFormed) (stands : disk.node? base = some .directory)
    (noSlash : '/' ∉ version.toList) :
    stagingPath (pathOf base) version = pathOf (stagingLocation base version) :=
  join_pathOf (by simp) (wellFormed.isSegment_append stands (isSegment_stagingName noSlash))

theorem archivePath_eq (wellFormed : disk.WellFormed) (stands : disk.node? base = some .directory)
    (noSlash : '/' ∉ version.toList) :
    archivePath (pathOf base) version = pathOf (archiveLocation base version) :=
  join_pathOf (by simp) (wellFormed.isSegment_append stands (isSegment_archiveName noSlash))

end Bundle

/-! ## The states of a staging directory -/

namespace StagingDirectory

/-- The name of the directory for the executable. -/
def binName : Name :=
  Utf8.ofString "bin"

/-- The name of the executable in its directory. -/
def executableName : Name :=
  Utf8.ofString "sur"

/-- The name of the descriptor. -/
def descriptorName : Name :=
  Utf8.ofString Descriptor.fileName

/-- A file system with an empty staging directory in the place of whatever was there. -/
def vacated (disk : FileSystem) (top : Location) : FileSystem :=
  (disk.cut top).put top .directory

/-- A file system with a staging directory that holds an empty directory for the executable. -/
def furnished (disk : FileSystem) (top : Location) : FileSystem :=
  (vacated disk top).put (top ++ [binName]) .directory

/-- A file system with a staging directory that holds the executable. -/
def supplied (disk : FileSystem) (top : Location) (executable : File) : FileSystem :=
  (furnished disk top).putFile (top ++ [binName] ++ [executableName]) executable

/-- A file system with a staging directory in which a bundle is laid out. -/
def laidOut (disk : FileSystem) (top : Location) (executable descriptor : File) : FileSystem :=
  (supplied disk top executable).putFile (top ++ [descriptorName]) descriptor

variable {disk : FileSystem} {above : Location} {name : Name} {executable descriptor : File}

theorem node?_vacated (disk : FileSystem) {top : Location} (belowRoot : top ≠ [])
    (other : Location) :
    (vacated disk top).node? other =
      if top = other then some .directory
      else if top <+: other then none else disk.node? other := by
  rw [vacated, node?_put _ _ _ _ belowRoot, node?_cut _ _ _ belowRoot]

theorem node?_furnished (disk : FileSystem) (top other : Location) :
    (furnished disk top).node? other =
      if top ++ [binName] = other then some .directory else (vacated disk top).node? other :=
  node?_put _ _ _ _ (by simp)

theorem node?_supplied (disk : FileSystem) (top : Location) (executable : File)
    (other : Location) :
    (supplied disk top executable).node? other =
      if top ++ [binName] ++ [executableName] = other then some (.file disk.files.length)
      else (furnished disk top).node? other :=
  node?_putFile _ _ _ _ (by simp)

theorem length_furnished (disk : FileSystem) (top : Location) :
    (furnished disk top).files.length = disk.files.length :=
  rfl

theorem length_supplied (disk : FileSystem) (top : Location) (executable : File) :
    (supplied disk top executable).files.length = disk.files.length + 1 := by
  simp [supplied, FileSystem.putFile, put, addFile, length_furnished]

theorem node?_laidOut (disk : FileSystem) (top : Location) (executable descriptor : File)
    (other : Location) :
    (laidOut disk top executable descriptor).node? other =
      if top ++ [descriptorName] = other then some (.file (disk.files.length + 1))
      else (supplied disk top executable).node? other := by
  rw [laidOut, node?_putFile _ _ _ _ (by simp), length_supplied]

/-- Where a staging directory can be made: under a name of a directory. -/
structure Site (disk : FileSystem) (above : Location) (name : Name) : Prop where
  wellFormed : disk.WellFormed
  stands : disk.node? above = some .directory
  solid : IsSegment name

/-- What every state of a staging directory has in common, whatever has been put into it. -/
structure Staged (disk : FileSystem) (top : Location) (state : FileSystem) : Prop where
  wellFormed : state.WellFormed
  stands : state.node? top = some .directory
  changed : ChangedWithin top (disk.cut top) state

namespace Staged

variable {top directory : Location} {state : FileSystem}

theorem put (staged : Staged disk top state) (belowRoot : top ≠ []) (inside : top <+: directory)
    (stands : state.node? directory = some .directory)
    (vacant : state.node? (directory ++ [name]) = none) (isName : IsName name) :
    Staged disk top (state.put (directory ++ [name]) .directory) where
  wellFormed := staged.wellFormed.put stands vacant isName trivial
  stands := by
    rw [node?_put _ _ _ _ (by simp)]
    split
    · rfl
    · exact staged.stands
  changed := staged.changed.trans (.put belowRoot (inside.trans (List.prefix_append ..)))

theorem putFile (staged : Staged disk top state) (belowRoot : top ≠ [])
    (inside : top <+: directory) (stands : state.node? directory = some .directory)
    (vacant : state.node? (directory ++ [name]) = none) (isName : IsName name) (file : File) :
    Staged disk top (state.putFile (directory ++ [name]) file) where
  wellFormed := staged.wellFormed.putFile stands vacant isName file
  stands := by
    rw [node?_putFile _ _ _ _ (by simp), if_neg, staged.stands]
    rintro rfl
    exact not_prefix_directory directory name inside
  changed := staged.changed.trans (.putFile belowRoot (inside.trans (List.prefix_append ..)))

/-- Taking a staging directory away leaves what was there before, without its predecessor. -/
theorem alike_cut (staged : Staged disk top state) (wellFormed : disk.WellFormed)
    (belowRoot : top ≠ []) : Alike (state.cut top) (disk.cut top) := by
  have gone : (disk.cut top).node? top = none := by
    rw [node?_cut _ _ _ belowRoot, if_pos List.prefix_rfl]
  have alike := staged.changed.alike_cut (wellFormed.cutAt belowRoot) belowRoot
  rwa [(wellFormed.cutAt belowRoot).cut_of_vacant gone] at alike

end Staged

variable (site : Site disk above name)

include site

theorem Site.cut : (disk.cut (above ++ [name])).WellFormed ∧
    (disk.cut (above ++ [name])).node? above = some .directory ∧
    (disk.cut (above ++ [name])).node? (above ++ [name]) = none := by
  refine ⟨site.wellFormed.cutAt (by simp), ?_, ?_⟩
  · rw [node?_cut _ _ _ (by simp), if_neg (not_prefix_directory above name), site.stands]
  · rw [node?_cut _ _ _ (by simp), if_pos List.prefix_rfl]

theorem staged_vacated (isName : IsName name) :
    Staged disk (above ++ [name]) (vacated disk (above ++ [name])) := by
  rcases site.cut with ⟨wellFormed, stands, vacant⟩
  refine ⟨wellFormed.put stands vacant isName trivial, ?_, .put (by simp) List.prefix_rfl⟩
  rw [node?_vacated disk (by simp), if_pos rfl]

theorem staged_furnished (isName : IsName name) :
    Staged disk (above ++ [name]) (furnished disk (above ++ [name])) := by
  have staged := staged_vacated site isName
  refine staged.put (by simp) List.prefix_rfl staged.stands ?_ (by decide)
  simp [node?_vacated]

theorem staged_supplied (isName : IsName name) (executable : File) :
    Staged disk (above ++ [name]) (supplied disk (above ++ [name]) executable) := by
  have staged := staged_furnished site isName
  refine staged.putFile (by simp) (List.prefix_append ..) ?_ ?_ (by decide) executable
  · simp [node?_furnished]
  · simp [node?_furnished, node?_vacated]

theorem staged_laidOut (isName : IsName name) (executable descriptor : File) :
    Staged disk (above ++ [name]) (laidOut disk (above ++ [name]) executable descriptor) := by
  have staged := staged_supplied site isName executable
  refine staged.putFile (by simp) List.prefix_rfl staged.stands ?_ (by decide) descriptor
  have other : binName ≠ descriptorName := by decide
  simp [node?_supplied, node?_furnished, node?_vacated, other]

/-! ## What a bundle consists of -/

omit site

variable {top : Location}

theorem below_laidOut (disk : FileSystem) (belowRoot : top ≠ []) (executable descriptor : File) :
    (laidOut disk top executable descriptor).below top =
      [(top ++ [binName], .directory),
        (top ++ [binName] ++ [executableName], .file disk.files.length),
        (top ++ [descriptorName], .file (disk.files.length + 1))] := by
  apply below_eq
  · have inner : compare [binName] [binName, executableName] = .lt := by decide
    have last : compare [binName] [descriptorName] = .lt := by decide
    have later : compare [binName, executableName] [descriptorName] = .lt := by decide
    simp [compare_append, inner, last, later]
  · rintro ⟨other, node⟩
    have differs : binName ≠ descriptorName := by decide
    rw [mem_below_iff, node?_laidOut, node?_supplied, node?_furnished, node?_vacated disk belowRoot]
    constructor
    · rintro ⟨stands, inside, proper⟩
      split at stands
      · next same =>
        cases stands
        simp [same]
      split at stands
      · next same =>
        cases stands
        simp [← same]
      split at stands
      · next same =>
        cases stands
        simp [same]
      simp [Ne.symm proper] at stands
    · intro member
      simp only [List.mem_cons, Prod.mk.injEq, List.not_mem_nil, or_false] at member
      rcases member with ⟨rfl, rfl⟩ | ⟨rfl, rfl⟩ | ⟨rfl, rfl⟩
      · simp [differs.symm]
      · simp
      · simp

/-- A bundle that is laid out has two files, the executable and the descriptor, in this order. -/
theorem filesBelow_laidOut (disk : FileSystem) (belowRoot : top ≠ [])
    (executable descriptor : File) :
    (laidOut disk top executable descriptor).filesBelow (.live top) =
      [([binName, executableName], disk.files.length),
        ([descriptorName], disk.files.length + 1)] := by
  simp [filesBelow, below_laidOut disk belowRoot]

theorem file?_laidOut_executable (disk : FileSystem) (top : Location)
    (executable descriptor : File) :
    (laidOut disk top executable descriptor).file? disk.files.length = some executable := by
  rw [laidOut, file?_putFile, if_neg (by simp [length_supplied]), supplied, file?_putFile,
    if_pos (length_furnished disk top).symm]

theorem file?_laidOut_descriptor (disk : FileSystem) (top : Location)
    (executable descriptor : File) :
    (laidOut disk top executable descriptor).file? (disk.files.length + 1) = some descriptor := by
  rw [laidOut, file?_putFile, if_pos (length_supplied disk top executable).symm]

theorem listing_laidOut (disk : FileSystem) (belowRoot : top ≠ [])
    (executable descriptor : File) :
    Archive.listing (laidOut disk top executable descriptor) (.live top) =
      [([binName, executableName], executable), ([descriptorName], descriptor)] := by
  simp [Archive.listing, filesBelow_laidOut disk belowRoot, file?_laidOut_executable,
    file?_laidOut_descriptor]

/-- Where the files of a bundle can be reached, all of it can be walked through. -/
theorem withinLimits_laidOut (disk : FileSystem) (belowRoot : top ≠ [])
    (executable descriptor : File)
    (addressable : Addressable (top ++ [binName] ++ [executableName]))
    (addressableDescriptor : Addressable (top ++ [descriptorName])) :
    (laidOut disk top executable descriptor).WithinLimits (pathOf top) (.live top) := by
  rintro other names ⟨⟩ stands
  have reached : Addressable (top ++ names) := by
    by_cases root : names = []
    · rw [root, List.append_nil]
      exact addressableDescriptor.above
    · rcases Option.ne_none_iff_exists'.mp stands with ⟨node, found⟩
      have member := mem_below_iff.mpr
        ⟨found, List.prefix_append top names, by simpa using root⟩
      rw [below_laidOut disk belowRoot] at member
      simp only [List.mem_cons, Prod.mk.injEq, List.not_mem_nil, or_false] at member
      rcases member with ⟨same, -⟩ | ⟨same, -⟩ | ⟨same, -⟩
      · exact same ▸ addressable.above
      · exact same ▸ addressable
      · exact same ▸ addressableDescriptor
  rw [pathBelow_pathOf reached.isSegment]
  exact reached.short

end StagingDirectory

end BundlePacker
