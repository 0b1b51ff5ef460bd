import BundlePacker.Proofs.Bundle.Outcome

/-!
# What making a bundle comes to

The base directory is given by the path of its location here, and the archive is not opened inside
the staging directory.  The executable may lie anywhere, the base directory may hold anything under
the two names of the version, and any step may fail.

The main statement is that a run ends with a bundle or with what was there before.  An archive that
has been opened is finished, because what is laid out can always be gathered.
-/

namespace BundlePacker.Bundle

open FileSystem
open StagingDirectory
open Archive (Entry Describes)

variable {session : Session} {base : Location} {version : String}

theorem site_stagingLocation {disk : FileSystem} (wellFormed : disk.WellFormed)
    (stands : disk.node? base = some .directory) (noSlash : '/' ∉ version.toList) :
    Site disk base (Utf8.ofString (stagingName version)) :=
  ⟨wellFormed, stands, isSegment_stagingName noSlash⟩

theorem isName_stagingName (addressable : Addressable (stagingLocation base version)) :
    IsName (Utf8.ofString (stagingName version)) :=
  addressable.names _ (by simp [stagingLocation])

section

variable {disk : FileSystem} {above : Location} {name : Name}

/-- The two entries of a bundle. -/
structure Bundled (file : File) (version : String) (entries : List Entry) : Prop where
  described : List.Forall₂ (fun pair entry => Describes pair.1 pair.2 entry)
    [([binName, executableName], written file.mode file.content),
      ([descriptorName], descriptorFile version)] entries

/-- A tree with the two files of a bundle can be gathered when an archive is opened beside it. -/
theorem gatherTree_of_listing {disk opened : FileSystem} {handle : Handle} {root : Path}
    {top : Location} {file : File} (readable : file.isReadable = true)
    (wellFormed : disk.WellFormed) (found : disk.locate root = .ok (.live top))
    (stands : disk.node? top = some .directory) (short : disk.WithinLimits root (.live top))
    (only : Archive.listing disk (.live top) =
      [([binName, executableName], written file.mode file.content),
        ([descriptorName], descriptorFile version)])
    (changed : OpenedOutside (.live top) disk handle opened) :
    (Archive.gatherTree opened handle root).failure = none ∧
      Bundled file version (Archive.gatherTree opened handle root).entries := by
  have fits : ∀ names other, disk.FileBelow (.live top) names other →
      IsText (Path.joinSegments names) ∧ other.isReadable = true := by
    intro names other stands
    rw [← Archive.mem_listing, only] at stands
    simp only [List.mem_cons, Prod.mk.injEq, List.not_mem_nil, or_false] at stands
    rcases stands with ⟨rfl, same⟩ | ⟨rfl, same⟩
    · rw [same, isReadable_written]
      exact ⟨⟨Descriptor.executablePath, rfl⟩, readable⟩
    · rw [same, isReadable_descriptorFile]
      exact ⟨⟨Descriptor.fileName, rfl⟩, rfl⟩
  have complete := (Archive.gatherTree_complete_iff wellFormed found stands short changed).mpr fits
  have described := Archive.forall₂_listing
    ((Archive.gatherTree_iff wellFormed found stands short changed).mp ⟨rfl, complete⟩)
  rw [Archive.listing] at only
  rw [only] at described
  exact ⟨complete, ⟨described⟩⟩

/-- What is laid out for a bundle can be gathered, whatever has been opened outside of it. -/
theorem gatherTree_prepared (site : Site disk above name)
    (reached : Addressable (above ++ [name] ++ [binName] ++ [executableName]))
    (reachedLast : Addressable (above ++ [name] ++ [descriptorName])) {file : File}
    (readable : file.isReadable = true) {handle : Handle} {opened : FileSystem}
    (changed : OpenedOutside (.live (above ++ [name]))
      (prepared disk (above ++ [name]) file version) handle opened) :
    (Archive.gatherTree opened handle (pathOf (above ++ [name]))).failure = none ∧
      Bundled file version
        (Archive.gatherTree opened handle (pathOf (above ++ [name]))).entries := by
  have addressable : Addressable (above ++ [name]) := reachedLast.above
  have isName : IsName name := addressable.names name (by simp)
  have belowRoot : above ++ [name] ≠ [] := by simp
  have staged := staged_prepared site isName file version
  have short := withinLimits_laidOut disk belowRoot (written file.mode file.content)
    (descriptorFile version) reached reachedLast
  have found := locate_eq_ok_iff.mpr
    (resolve_occupied staged.wellFormed .target staged.stands (.inr (by simp)) addressable)
  exact gatherTree_of_listing readable staged.wellFormed found staged.stands short
    (listing_laidOut disk belowRoot _ _) changed

end

/-- The disk at the end of a run that has made a bundle, with how it has come about. -/
inductive Finished (disk : FileSystem) (base : Location) (executable : Path) (version : String) :
    FileSystem → Prop
  | intro {place : Place} {id source : Nat} {file : File} {handle : Handle}
      {opened : FileSystem} {entries : List Entry}
      (addressable : Addressable (stagingLocation base version))
      (found : disk.locate executable = .ok place)
      (isFile : disk.nodeAt? place = some (.file id))
      (reads : (furnished disk (stagingLocation base version)).openToRead executable =
        .ok (.file source))
      (content : disk.file? source = some file)
      (opens : Opens (prepared disk (stagingLocation base version) file version)
        (archivePath (pathOf base) version) (.ok handle opened))
      (bundled : Bundled file version entries) :
      Finished disk base executable version
        ((stateAfter (write handle (.archive entries)) opened).cut
          (stagingLocation base version))

section

variable {disk : FileSystem} (wellFormed : disk.WellFormed)
  (stands : disk.node? base = some .directory) (noSlash : '/' ∉ version.toList)

include wellFormed stands noSlash

theorem admissible_stagingPath_iff :
    Admissible (stagingPath (pathOf base) version) (Utf8.ofString (stagingName version)) ↔
      Addressable (stagingLocation base version) := by
  rw [stagingPath_eq wellFormed stands noSlash]
  exact admissible_pathOf_iff (wellFormed.isName_of_mem (by simp [stands]))
    (isSegment_stagingName noSlash)

/-- A run begins only where the system takes the path of its staging directory. -/
theorem Begins.addressable {executable : Path}
    (begins : Begins disk (pathOf base) executable base version) :
    Addressable (stagingLocation base version) :=
  (admissible_stagingPath_iff wellFormed stands noSlash).mp begins.admissible

/-- The paths of the staging directory are those of its locations. -/
theorem executablePath_stagingPath :
    executablePath ⟨stagingPath (pathOf base) version⟩ =
      pathOf (stagingLocation base version ++ [binName] ++ [executableName]) := by
  have outer := wellFormed.isSegment_append stands (isSegment_stagingName noSlash)
  have pieces : ∀ other ∈ stagingLocation base version ++ [binName, executableName],
      IsSegment other := by
    intro other member
    rcases List.mem_append.mp member with early | late
    · exact outer other early
    · rcases List.mem_pair.mp late with rfl | rfl
      · exact isSegment_binName
      · exact isSegment_executableName
  rw [stagingPath_eq wellFormed stands noSlash, List.append_assoc]
  exact join_pathOf (by simp) pieces

theorem binPath_stagingPath :
    (stagingPath (pathOf base) version).join ⟨binName⟩ =
      pathOf (stagingLocation base version ++ [binName]) := by
  have outer := wellFormed.isSegment_append stands (isSegment_stagingName noSlash)
  have pieces : ∀ other ∈ stagingLocation base version ++ [binName], IsSegment other := by
    intro other member
    rcases List.mem_append.mp member with early | late
    · exact outer other early
    · exact List.mem_singleton.mp late ▸ isSegment_binName
  rw [stagingPath_eq wellFormed stands noSlash]
  exact join_pathOf (by simp) pieces

theorem descriptorPath_stagingPath :
    descriptorPath ⟨stagingPath (pathOf base) version⟩ =
      pathOf (stagingLocation base version ++ [descriptorName]) := by
  have outer := wellFormed.isSegment_append stands (isSegment_stagingName noSlash)
  have pieces : ∀ other ∈ stagingLocation base version ++ [descriptorName],
      IsSegment other := by
    intro other member
    rcases List.mem_append.mp member with early | late
    · exact outer other early
    · exact List.mem_singleton.mp late ▸ isSegment_descriptorName
  rw [stagingPath_eq wellFormed stands noSlash]
  exact join_pathOf (by simp) pieces

/-- What is opened outside the staging directory for the archive is made a whole archive. -/
theorem gatherTree_of_archives (addressable : Addressable (stagingLocation base version))
    {executable : Path} {file : File} {handle : Handle} {opened : FileSystem}
    (outside : ¬ (prepared disk (stagingLocation base version) file version).WritesInto
      (.live (stagingLocation base version)) (archivePath (pathOf base) version))
    (archives : Archives disk (pathOf base) executable base version file handle opened) :
    (Archive.gatherTree opened handle (stagingPath (pathOf base) version)).failure = none ∧
      Bundled file version
        (Archive.gatherTree opened handle (stagingPath (pathOf base) version)).entries := by
  rcases archives with ⟨reached, reachedLast, ⟨id, reads, content⟩, ran⟩
  have site := site_stagingLocation wellFormed stands noSlash
  have isName := isName_stagingName addressable
  have furnishing := staged_furnished site isName
  have supplying := staged_supplied site isName (written file.mode file.content)
  have bin : (furnished disk (stagingLocation base version)).node?
      (stagingLocation base version ++ [binName]) = some .directory := by
    simp [node?_furnished]
  rw [executablePath_stagingPath wellFormed stands noSlash] at reached
  rw [descriptorPath_stagingPath wellFormed stands noSlash] at reachedLast
  rw [stagingPath_eq wellFormed stands noSlash]
  exact gatherTree_prepared site (reached.addressable furnishing.wellFormed bin)
    (reachedLast.addressable supplying.wellFormed supplying.stands)
    (isReadable_of_openToRead reads content)
    (openedOutside_of_opens (staged_prepared site isName file version).wellFormed outside
      (opens_of_ok ran))

/-- Where the system does not take the path of the base directory nothing can be made. -/
theorem refuses_of_not_addressable (refused : ¬ Addressable base) :
    disk.Refuses (stagingPath (pathOf base) version) := by
  rw [stagingPath_eq wellFormed stands noSlash]
  exact Refuses.of_not_addressable wellFormed stands (isSegment_stagingName noSlash)
    fun addressable => refused addressable.above

end

/-- Every run ends in one of the ways, even where the system does not take the base's path. -/
theorem ends_create_pathOf (wellFormed : session.disk.WellFormed)
    (stands : session.disk.node? base = some .directory) (noSlash : '/' ∉ version.toList)
    (executable : Path) :
    Ends session (pathOf base) executable base version
      (create (pathOf base) executable version session) := by
  by_cases taken : Addressable base
  · have site := site_stagingLocation wellFormed stands noSlash
    exact ends_create (grounded_pathOf site taken) noSlash executable
  · have refuses := refuses_of_not_addressable wellFormed stands noSlash taken
    have inadmissible : ¬ Admissible (stagingPath (pathOf base) version)
        (Utf8.ofString (stagingName version)) := fun admissible =>
      taken ((admissible_stagingPath_iff wellFormed stands noSlash).mp admissible).above
    have longer : (stagingPath (pathOf base) version).bytes ≠ [] := by
      simp [stagingPath_eq wellFormed stands noSlash]
    rcases checkExecutable_cases session executable with
      ⟨meansFile, checked⟩ | ⟨fault, unfit, failed⟩
    · rw [create, run_bind_of_ok checked,
        run_bind_of_error (StagingDirectory.create_of_refuses longer refuses)]
      exact .unchanged (.obstructed meansFile (.refused inadmissible refuses))
    · rw [create, run_bind_of_error failed]
      exact .unchanged (.unfit unfit)

/-- A run ends with a bundle, or with what was there before, up to an older staging directory. -/
theorem create_cases (wellFormed : session.disk.WellFormed)
    (stands : session.disk.node? base = some .directory) (noSlash : '/' ∉ version.toList)
    (outside : Addressable (stagingLocation base version) → ∀ file,
      ¬ (prepared session.disk (stagingLocation base version) file version).WritesInto
        (.live (stagingLocation base version)) (archivePath (pathOf base) version))
    (executable : Path) :
    (∃ fault last, create (pathOf base) executable version session = .error fault last ∧
        (last.disk = session.disk ∨
          Alike last.disk (session.disk.cut (stagingLocation base version)))) ∨
      ∃ last, create (pathOf base) executable version session =
          .ok (archivePath (pathOf base) version) last ∧
        Finished session.disk base executable version last.disk := by
  have ends := ends_create_pathOf wellFormed stands noSlash executable
  generalize create (pathOf base) executable version session = result at ends
  cases ends with
  | unchanged prevents =>
      exact .inl ⟨_, _, rfl, .inl rfl⟩
  | abandoned begins staged hinders =>
      exact .inl ⟨_, _, rfl, .inr (staged.alike_cut wellFormed (stagingLocation_ne_nil _ _))⟩
  | archived begins archives complete =>
      have addressable := begins.addressable wellFormed stands noSlash
      have bundled := gatherTree_of_archives wellFormed stands noSlash addressable
        (outside addressable _) archives
      rcases begins.meansFile with ⟨place, id, found, isFile⟩
      rcases archives.copied with ⟨source, reads, content⟩
      exact .inr ⟨_, rfl,
        .intro addressable found isFile reads content (opens_of_ok archives.ran) bundled.2⟩
  | discarded begins archives incomplete =>
      have addressable := begins.addressable wellFormed stands noSlash
      have bundled := gatherTree_of_archives wellFormed stands noSlash addressable
        (outside addressable _) archives
      rw [bundled.1] at incomplete
      cases incomplete

/-! ## Where the archive goes -/

/-- An archive that is opened outside the staging directory does not touch what is in it. -/
theorem not_writesInto_prepared {disk : FileSystem} {above : Location} {name : Name}
    (site : Site disk above name) (isName : IsName name) (file : File) {archive : Path}
    (apart : ∀ spot inner,
      (prepared disk (above ++ [name]) file version).resolve .creation archive = .ok spot →
      spot.place = .live inner →
      (prepared disk (above ++ [name]) file version).node? inner ≠ some .directory →
      ¬ above ++ [name] <+: inner) :
    ¬ (prepared disk (above ++ [name]) file version).WritesInto (.live (above ++ [name]))
      archive := by
  have staged := staged_prepared site isName file version
  rintro (⟨top, directory, last, ⟨⟩, ends, inside⟩ | ⟨location, id, names, ends, stands, member⟩)
  · have vacant := (resolve_holds staged.wellFormed ends).2.1
    exact apart _ _ ends rfl (by simp [vacant]) inside
  · -- The files of the staging directory are newer than all files outside.
    have outside := apart _ _ ends rfl (by simp [stands])
    rw [node?_of_staged staged (by simp) outside] at stands
    have known : id < disk.files.length := site.wellFormed.fits _ _ stands
    rw [prepared, filesBelow_laidOut disk (by simp)] at member
    simp only [List.mem_cons, Prod.mk.injEq, List.not_mem_nil, or_false] at member
    rcases member with ⟨-, same⟩ | ⟨-, same⟩ <;> omega

section

variable {disk state : FileSystem} (wellFormed : disk.WellFormed)
  (stands : disk.node? base = some .directory) (noSlash : '/' ∉ version.toList)
  (noLink : ∀ target, disk.node? (archiveLocation base version) ≠ some (.link target))
  (staged : Staged disk (stagingLocation base version) state)

include wellFormed stands noSlash noLink staged

/-- While a bundle is made the path of an archive that is no link leads to its location only. -/
theorem place_of_no_link {spot : Spot}
    (ends : state.resolve .creation (archivePath (pathOf base) version) = .ok spot) :
    spot.place = .live (archiveLocation base version) := by
  have belowRoot := stagingLocation_ne_nil base version
  have directory : state.node? base = some .directory :=
    (node?_of_staged staged belowRoot (not_prefix_directory _ _)).trans stands
  have kept : ∀ target, state.node? (archiveLocation base version) ≠ some (.link target) := by
    rwa [node?_of_staged staged belowRoot (not_prefix_archiveLocation base version)]
  rw [archivePath_eq wellFormed stands noSlash] at ends
  exact place_of_resolve_pathOf staged.wellFormed directory (isSegment_archiveName noSlash) kept
    ends

/-- An archive that is no link is opened outside the staging directory. -/
theorem apart_of_no_link {spot : Spot} {inner : Location}
    (ends : state.resolve .creation (archivePath (pathOf base) version) = .ok spot)
    (there : spot.place = .live inner) : ¬ stagingLocation base version <+: inner := by
  have place := place_of_no_link wellFormed stands noSlash noLink staged ends
  rw [there] at place
  cases place
  exact not_prefix_archiveLocation base version

end

/-- Whether a path leads into a staging directory once a bundle is laid out there. -/
def LeadsInto (disk : FileSystem) (top : Location) (version : String) (path : Path) : Prop :=
  ∃ file spot inner, (prepared disk top file version).resolve .creation path = .ok spot ∧
    spot.place = .live inner ∧ top <+: inner

/-! ## Runs on a small file system -/

/--
A file system with an executable.  Under the names of three archives there are a directory, a link
to a device, and a link that leads through a staging directory.
-/
def sample : FileSystem :=
  stateAfter
    (do
      writeFile (.ofString "/sur") (.plain [0x78])
      makeDirectory (.ofString "/sur-1.artifactbundle.zip")
      makeLink (.ofString "/sur-2.artifactbundle.zip") (.ofString "null")
      makeLink (.ofString "/sur-3.artifactbundle.zip")
        (.ofString "sur-3.artifactbundle_bundle/../x"))
    (FileSystem.empty.put [Utf8.ofString "null"] (.special .device))

theorem wellFormed_sample : sample.WellFormed := by
  have device : (FileSystem.empty.put ([] ++ [Utf8.ofString "null"])
      (.special .device)).WellFormed :=
    wellFormed_empty.put rfl rfl (by decide) trivial
  apply Keeps.bind (keeps_writeFile _ _) _ _ device
  intro _
  apply Keeps.bind (keeps_makeDirectory _)
  intro _
  exact Keeps.bind (keeps_makeLink _ _) fun _ => keeps_makeLink _ _

/-- Whether a run that succeeds leaves an archive at the path that it returns. -/
def leavesArchive : EStateM.Result Error Session Path → Option Bool
  | .error _ _ => none
  | .ok path last =>
    match last.disk.contentOf path with
    | .ok (.archive _) => some true
    | _ => some false

theorem exists_of_leavesArchive_none {result : EStateM.Result Error Session Path}
    (failed : leavesArchive result = none) : ∃ fault last, result = .error fault last := by
  cases result with
  | error fault last =>
      exact ⟨fault, last, rfl⟩
  | ok path last =>
      rw [leavesArchive] at failed
      split at failed <;> cases failed

theorem exists_of_leavesArchive_true {result : EStateM.Result Error Session Path}
    (left : leavesArchive result = some true) : ∃ path last, result = .ok path last := by
  cases result with
  | error fault last =>
      cases left
  | ok path last =>
      exact ⟨path, last, rfl⟩

theorem exists_of_leavesArchive_false {result : EStateM.Result Error Session Path}
    (lost : leavesArchive result = some false) :
    ∃ path last, result = .ok path last ∧
      ∀ entries, last.disk.contentOf path ≠ .ok (.archive entries) := by
  cases result with
  | error fault last =>
      cases lost
  | ok path last =>
      refine ⟨path, last, rfl, ?_⟩
      intro entries held
      rw [leavesArchive, held] at lost
      cases lost

end BundlePacker.Bundle
