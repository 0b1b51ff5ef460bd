import Mathlib
import BundlePacker.Proofs.Bundle.Create
import BundlePacker.Proofs.Descriptor.ReadBack

/-!
# What a bundle holds

The archive of a bundle has two entries, for the executable and for the descriptor.  It stays in its
place when the staging directory is taken away, provided that its path leads there by no way through
the staging directory and that it is no device.
-/

namespace BundlePacker.Bundle

open FileSystem
open StagingDirectory
open Archive (Entry Describes)

variable {session : Session} {base : Location} {version : String}

/-- The archive of a bundle: the executable with its bytes and its mode, then the descriptor. -/
def entriesOf (executable : File) (version : String) : List Entry :=
  [{ name := Descriptor.executablePath
     data := executable.content.bytes
     permissions := executable.mode.setWidth 9
     method := .deflate
     modified := .epoch },
   { name := Descriptor.fileName
     data := Utf8.ofString (Descriptor.forExecutable version).render
     permissions := freshMode.setWidth 9
     method := .deflate
     modified := .epoch }]

theorem eq_of_describes {names : List Name} {file : File} {entry : Entry} {text : String}
    (describes : Describes names file entry)
    (called : Utf8.ofString text = Path.joinSegments names) :
    entry =
      { name := text
        data := file.content.bytes
        permissions := file.mode.setWidth 9
        method := .deflate
        modified := .epoch } := by
  rcases describes with ⟨name, data, permissions, method, modified⟩
  have same : entry.name = text := Utf8.ofString_injective (name.trans called.symm)
  cases entry
  simp_all

theorem Bundled.entries_eq {file : File} {entries : List Entry}
    (bundled : Bundled file version entries) : entries = entriesOf file version := by
  rcases bundled with ⟨described⟩
  rcases entries with - | ⟨first, - | ⟨second, - | ⟨third, more⟩⟩⟩
  · cases described
  · rcases List.forall₂_cons.mp described with ⟨-, rest⟩
    cases rest
  · rcases List.forall₂_cons.mp described with ⟨one, rest⟩
    rcases List.forall₂_cons.mp rest with ⟨two, -⟩
    have called : Utf8.ofString Descriptor.executablePath =
        Path.joinSegments [binName, executableName] := rfl
    have calledLast : Utf8.ofString Descriptor.fileName = Path.joinSegments [descriptorName] := rfl
    rw [eq_of_describes one called, eq_of_describes two calledLast, entriesOf]
    simp [descriptorFile, Content.bytes]
  · rcases List.forall₂_cons.mp described with ⟨-, rest⟩
    rcases List.forall₂_cons.mp rest with ⟨-, last⟩
    cases last

/-- An archive path that is no link does not pass through the staging directory. -/
theorem archive_passes_by {disk : FileSystem} (wellFormed : disk.WellFormed)
    (stands : disk.node? base = some .directory) (noSlash : '/' ∉ version.toList)
    (linkPassesBy : ∀ target,
      disk.node? (archiveLocation base version) = some (.link target) →
      ¬ disk.PassesThrough .creation (archivePath (pathOf base) version)
        (stagingLocation base version)) :
    ¬ disk.PassesThrough .creation (archivePath (pathOf base) version)
      (stagingLocation base version) := by
  by_cases link : ∃ target, disk.node? (archiveLocation base version) = some (.link target)
  · rcases link with ⟨target, found⟩
    exact linkPassesBy target found
  · rintro ⟨entry, member, inside⟩
    rw [archivePath_eq wellFormed stands noSlash] at member
    have within := prefix_of_mem_lookedUp wellFormed stands (isSegment_archiveName noSlash)
      (fun target found => link ⟨target, found⟩) entry member
    exact not_prefix_archiveLocation base version (inside.trans within)

/-- What the archive path opens lies outside the staging directory, and it led there before. -/
theorem archive_of_passing_by {disk state : FileSystem} {top location : Location}
    (wellFormed : disk.WellFormed) (staged : Staged disk top state) (belowRoot : top ≠ [])
    {path : Path} (passesBy : ¬ disk.PassesThrough .creation path top) {spot : Spot}
    (ends : state.resolve .creation path = .ok spot) (there : spot.place = .live location)
    (noDirectory : state.node? location ≠ some .directory) :
    ¬ top <+: location ∧ disk.resolve .creation path = .ok spot ∧
      (disk.cut top).resolve .creation path = .ok spot := by
  have leaf : state.nodeAt? spot.place ≠ some .directory := by
    rwa [there]
  rcases resolve_of_passing_by wellFormed belowRoot
      (fun other outside => node?_of_staged staged belowRoot outside) staged.changed.places
      passesBy ends leaf with ⟨before, entry, same, outside⟩
  rw [there] at same
  cases same
  have leafBefore : disk.nodeAt? spot.place ≠ some .directory := by
    rw [there, nodeAt?_live, ← node?_of_staged staged belowRoot outside]
    exact noDirectory
  have without : ∀ other, ¬ top <+: other → (disk.cut top).node? other = disk.node? other := by
    intro other apart
    rw [node?_cut _ _ _ belowRoot, if_neg apart]
  exact ⟨outside, before,
    (resolve_passing_by wellFormed belowRoot (fun other _ => without other) rfl passesBy before
      leafBefore).1⟩

/-- A device that the archive path leads to during a run was one before the run. -/
theorem isDevice_of_staged {disk state : FileSystem} {top : Location}
    (wellFormed : disk.WellFormed) (staged : Staged disk top state) (belowRoot : top ≠ [])
    {path : Path} (passesBy : ¬ disk.PassesThrough .creation path top)
    (device : state.IsDevice path) : disk.IsDevice path := by
  rcases device with ⟨location, ends, stands⟩
  rcases archive_of_passing_by wellFormed staged belowRoot passesBy ends rfl (by simp [stands]) with
    ⟨outside, before, -⟩
  exact ⟨location, before, (node?_of_staged staged belowRoot outside).symm.trans stands⟩

/-- The archive of a bundle stays at its path when the staging directory is taken away. -/
theorem contentOf_without_staging {disk state opened : FileSystem} {top : Location}
    (wellFormed : disk.WellFormed) (staged : Staged disk top state) (belowRoot : top ≠ [])
    {path : Path} (passesBy : ¬ disk.PassesThrough .creation path top)
    (noDevice : ¬ disk.IsDevice path) {handle : Handle}
    (opens : Opens state path (.ok handle opened)) (entries : List Entry) :
    ((stateAfter (write handle (.archive entries)) opened).cut top).contentOf path =
      .ok (.archive entries) := by
  have kept : ¬ state.IsDevice path := fun device =>
    noDevice (isDevice_of_staged wellFormed staged belowRoot passesBy device)
  rcases opens.holds staged.wellFormed kept entries with
    ⟨spot, location, id, file, ends, there, stands, content, same⟩
  have noDirectory : state.node? location ≠ some .directory := by
    intro directory
    rw [opens.keeps staged.wellFormed location .directory directory] at stands
    cases stands
  rcases archive_of_passing_by wellFormed staged belowRoot passesBy ends there noDirectory with
    ⟨outside, -, after⟩
  have keeps : ∀ other node, (disk.cut top).node? other = some node →
      ((stateAfter (write handle (.archive entries)) opened).cut top).node? other =
        some node := by
    intro other node found
    rw [node?_cut _ _ _ belowRoot] at found ⊢
    split at found
    · cases found
    · next apart =>
      rw [if_neg apart, node?_write]
      exact opens.keeps staged.wellFormed other node
        ((node?_of_staged staged belowRoot apart).trans found)
  have places : ((stateAfter (write handle (.archive entries)) opened).cut top).workingDirectory =
      (disk.cut top).workingDirectory := by
    show (stateAfter (write handle (.archive entries)) opened).workingDirectory.without top = _
    rw [(tree_write handle entries opened).2, opens.workingDirectory, staged.changed.places]
    exact Place.without_without belowRoot disk.workingDirectory
  have standing : ((stateAfter (write handle (.archive entries)) opened).cut top).node? location =
      some (.file id) := by
    rw [node?_cut _ _ _ belowRoot, if_neg outside, node?_write, stands]
  have held := contentOf_of_resolve after there keeps places standing
    ((file?_cut ..).trans content)
  rwa [same] at held

/-- The executable that is copied is the one that was there at the beginning. -/
theorem sourceAt_furnished {disk : FileSystem} {executable : Path} {id : Nat}
    (site : Site disk base (Utf8.ofString (stagingName version)))
    (isName : IsName (Utf8.ofString (stagingName version)))
    (passesBy : ¬ disk.PassesThrough .target executable (stagingLocation base version))
    (means : ∃ place, disk.locate executable = .ok place ∧
      disk.nodeAt? place = some (.file id)) :
    (furnished disk (stagingLocation base version)).sourceAt executable = .ok (.file id) := by
  have belowRoot := stagingLocation_ne_nil base version
  have furnishing := staged_furnished site isName
  exact sourceAt_of_passing_by site.wellFormed belowRoot
    (fun _ _ => node?_of_staged furnishing belowRoot) furnishing.changed.places passesBy
    (sourceAt_eq_file_iff.mpr means)

/-- The archive of a finished bundle holds the executable that was there before. -/
theorem Finished.holds {disk last : FileSystem} {executable : Path}
    (finished : Finished disk base executable version last) (wellFormed : disk.WellFormed)
    (stands : disk.node? base = some .directory) (noSlash : '/' ∉ version.toList)
    (passesBy : ¬ disk.PassesThrough .target executable (stagingLocation base version))
    (archivePassesBy : ¬ disk.PassesThrough .creation (archivePath (pathOf base) version)
      (stagingLocation base version))
    (noDevice : ¬ disk.IsDevice (archivePath (pathOf base) version)) :
    (∃ place id file, disk.locate executable = .ok place ∧
      disk.nodeAt? place = some (.file id) ∧ disk.file? id = some file ∧
      last.contentOf (archivePath (pathOf base) version) =
        .ok (.archive (entriesOf file version))) ∧
      last.node? (stagingLocation base version) = none := by
  have site := site_stagingLocation wellFormed stands noSlash
  have belowRoot := stagingLocation_ne_nil base version
  rcases finished with ⟨addressable, found, isFile, reads, content, opens, bundled⟩
  rename_i place id source file handle opened entries
  have isName := isName_stagingName addressable
  have same : source = id := by
    have agree := (sourceAt_of_openToRead reads).symm.trans
      (sourceAt_furnished site isName passesBy ⟨place, found, isFile⟩)
    cases agree
    rfl
  subst same
  have held := contentOf_without_staging wellFormed (staged_prepared site isName file version)
    belowRoot archivePassesBy noDevice opens entries
  rw [bundled.entries_eq] at held ⊢
  refine ⟨⟨place, source, file, found, isFile, content, held⟩, ?_⟩
  rw [node?_cut _ _ _ belowRoot, if_pos List.prefix_rfl]

/--
A run that succeeds leaves the archive at the path that it returns.  The archive holds the
executable as it was before the run, and a descriptor that is read back with the version as it was
given, and the staging directory is gone.
-/
theorem create_ok_holds {executable path : Path} {last : Session}
    (wellFormed : session.disk.WellFormed)
    (stands : session.disk.node? base = some .directory) (noSlash : '/' ∉ version.toList)
    (passesBy : ¬ session.disk.PassesThrough .target executable (stagingLocation base version))
    (linkPassesBy : ∀ target,
      session.disk.node? (archiveLocation base version) = some (.link target) →
      ¬ session.disk.PassesThrough .creation (archivePath (pathOf base) version)
        (stagingLocation base version))
    (noDevice : ¬ session.disk.IsDevice (archivePath (pathOf base) version))
    (made : create (pathOf base) executable version session = .ok path last) :
    path = (pathOf base).join (.ofString (archiveName version)) ∧
      (∃ place id file, session.disk.locate executable = .ok place ∧
        session.disk.nodeAt? place = some (.file id) ∧ session.disk.file? id = some file ∧
        last.disk.contentOf path = .ok (.archive (entriesOf file version))) ∧
      (∃ descriptor artifact,
        Descriptor.ofJson (Utf8.ofString (Descriptor.forExecutable version).render) =
          .ok descriptor ∧
        descriptor.artifacts.toList = [(Descriptor.artifactName, artifact)] ∧
        artifact.version = version) ∧
      last.disk.node? (stagingLocation base version) = none := by
  have site := site_stagingLocation wellFormed stands noSlash
  have belowRoot := stagingLocation_ne_nil base version
  have archivePassesBy := archive_passes_by wellFormed stands noSlash linkPassesBy
  have outside : Addressable (stagingLocation base version) → ∀ file,
      ¬ (prepared session.disk (stagingLocation base version) file version).WritesInto
        (.live (stagingLocation base version)) (archivePath (pathOf base) version) := by
    intro addressable file
    have isName : IsName (Utf8.ofString (stagingName version)) :=
      addressable.names _ (by simp [stagingLocation])
    apply not_writesInto_prepared site isName file
    intro spot inner ends there noDirectory
    exact (archive_of_passing_by wellFormed (staged_prepared site isName file version) belowRoot
      archivePassesBy ends there noDirectory).1
  rcases create_cases wellFormed stands noSlash outside executable with
    ⟨_, _, ran, -⟩ | ⟨_, ran, finished⟩
  · rw [ran] at made
    cases made
  · rw [ran] at made
    cases made
    rcases finished.holds wellFormed stands noSlash passesBy archivePassesBy noDevice with
      ⟨holds, gone⟩
    refine ⟨rfl, holds, ⟨_, _, Descriptor.ofJson_render _, rfl, rfl⟩, gone⟩

set_option maxRecDepth 8000 in
/-- A bundle of the first version is made. -/
theorem create_ok_holds_sample :
    ∃ path last file, create (pathOf []) (.ofString "/sur") "0" ⟨sample, []⟩ = .ok path last ∧
      last.disk.contentOf path = .ok (.archive (entriesOf file "0")) := by
  have left : leavesArchive (create (pathOf []) (.ofString "/sur") "0" ⟨sample, []⟩) =
      some true := by
    simp only [create, assemble, addDescriptor_eq]
    generalize Utf8.ofString (Descriptor.forExecutable "0").render = bytes
    cases bytes <;> cbv
  rcases exists_of_leavesArchive_true left with ⟨path, last, made⟩
  have vacant : sample.node? (archiveLocation [] "0") = none := by
    decide
  have ends : sample.resolve .creation (archivePath (pathOf []) "0") =
      .ok (.vacant [] (Utf8.ofString (archiveName "0"))) := by
    cbv
  rcases create_ok_holds wellFormed_sample rfl (by decide) (by decide) (by simp [vacant])
      (by rintro ⟨location, other, -⟩; simp [ends] at other) made with
    ⟨-, ⟨-, -, file, -, -, -, held⟩, -⟩
  exact ⟨path, last, file, made, held⟩

/-- A path that leads to one place outside whatever is laid out does not lead inside. -/
theorem not_leadsInto_of_resolve {disk : FileSystem} {top : Location} {path : Path} {spot : Spot}
    (ends : ∀ executable descriptor,
      (laidOut disk top executable descriptor).resolve .creation path = .ok spot)
    (outside : ¬ top <+: spot.place.anchor) : ¬ LeadsInto disk top version path := by
  rintro ⟨file, other, inner, leads, there, inside⟩
  have same := (ends _ _).symm.trans leads
  cases same
  rw [there] at outside
  exact outside inside

set_option maxRecDepth 8000 in
/--
A device takes the archive and keeps nothing of it, and a link that leads through the staging
directory leads nowhere when that is gone.
-/
theorem create_ok_holds_nothing :
    sample.WellFormed ∧ sample.node? [] = some .directory ∧
      ¬ sample.PassesThrough .creation (archivePath (pathOf []) "2") (stagingLocation [] "2") ∧
      ¬ sample.IsDevice (archivePath (pathOf []) "3") ∧
      ∀ version ∈ ["2", "3"], '/' ∉ version.toList ∧
        ¬ sample.PassesThrough .target (.ofString "/sur") (stagingLocation [] version) ∧
        ¬ LeadsInto sample (stagingLocation [] version) version
          (archivePath (pathOf []) version) ∧
        ∃ path last,
          create (pathOf []) (.ofString "/sur") version ⟨sample, []⟩ = .ok path last ∧
          ∀ entries, last.disk.contentOf path ≠ .ok (.archive entries) := by
  refine ⟨wellFormed_sample, rfl, by decide, ?_, ?_⟩
  · rintro ⟨location, ends, -⟩
    have fails : sample.resolve .creation (archivePath (pathOf []) "3") =
        .error (.refused .notFound) := by
      cbv
    rw [fails] at ends
    cases ends
  · intro version member
    rcases List.mem_pair.mp member with rfl | rfl
    · refine ⟨by decide, by decide, ?_, exists_of_leavesArchive_false ?_⟩
      · have ends : ∀ executable descriptor,
            (laidOut sample (stagingLocation [] "2") executable descriptor).resolve .creation
              (archivePath (pathOf []) "2") =
                .ok (.occupied (.live [Utf8.ofString "null"])) := by
          intro executable descriptor
          cbv
        exact not_leadsInto_of_resolve ends (by decide)
      · simp only [create, assemble, addDescriptor_eq]
        generalize Utf8.ofString (Descriptor.forExecutable "2").render = bytes
        cases bytes <;> cbv
    · refine ⟨by decide, by decide, ?_, exists_of_leavesArchive_false ?_⟩
      · have ends : ∀ executable descriptor,
            (laidOut sample (stagingLocation [] "3") executable descriptor).resolve .creation
              (archivePath (pathOf []) "3") =
                .ok (.vacant [] (Utf8.ofString "x")) := by
          intro executable descriptor
          cbv
        exact not_leadsInto_of_resolve ends (by decide)
      · simp only [create, assemble, addDescriptor_eq]
        generalize Utf8.ofString (Descriptor.forExecutable "3").render = bytes
        cases bytes <;> cbv

end BundlePacker.Bundle
