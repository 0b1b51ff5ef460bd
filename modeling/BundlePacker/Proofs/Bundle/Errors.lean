import BundlePacker.Proofs.Bundle.Input
import BundlePacker.Proofs.Bundle.Run
import BundlePacker.Proofs.FileSystem.Making

/-!
# The errors of runs

What a run archives is what it has laid out, two files that are called by text, as long as its
staging directory is empty when it has been made and its archive is not a link into it.  So nothing
that has to do with names, with the walk through a tree or with the archive itself can go wrong.

The main statement is that a run is refused its executable, or the system refuses one of its calls,
or it succeeds.  It succeeds in every directory where nothing is in the way.
-/

namespace BundlePacker

open FileSystem

namespace StagingDirectory

/-- A file system with a bundle laid out in a directory that is there already. -/
def filled (disk : FileSystem) (top : Location) (executable descriptor : File) : FileSystem :=
  ((disk.put (top ++ [binName]) .directory).putFile (top ++ [binName] ++ [executableName])
    executable).putFile (top ++ [descriptorName]) descriptor

end StagingDirectory

namespace FileSystem.Empty

open BundlePacker.StagingDirectory

variable {disk : FileSystem} {top : Location} {executable descriptor : File}

theorem node?_vacated (empty : disk.Empty top) (belowRoot : top ≠ []) (other : Location) :
    (vacated disk top).node? other = disk.node? other := by
  rw [StagingDirectory.node?_vacated disk belowRoot]
  split
  · next same => rw [← same, empty.stands]
  split
  · next inside =>
    rcases inside with ⟨names, rfl⟩
    exact (empty.vacant names (by rintro rfl; simp_all)).symm
  · rfl

/-- It makes no difference to the tree whether an empty directory is made anew. -/
theorem node?_filled (empty : disk.Empty top) (belowRoot : top ≠ []) (other : Location) :
    (filled disk top executable descriptor).node? other =
      (laidOut disk top executable descriptor).node? other := by
  have length : (disk.put (top ++ [binName]) .directory).files.length = disk.files.length := rfl
  have lengthNext : ((disk.put (top ++ [binName]) .directory).putFile
      (top ++ [binName] ++ [executableName]) executable).files.length =
      disk.files.length + 1 := by
    simp [FileSystem.putFile, put, addFile]
  rw [filled, node?_putFile _ _ _ _ (by simp), node?_putFile _ _ _ _ (by simp),
    node?_put _ _ _ _ (by simp), length, lengthNext, node?_laidOut, node?_supplied, node?_furnished,
    empty.node?_vacated belowRoot]

theorem filesBelow_filled (empty : disk.Empty top) (belowRoot : top ≠ []) :
    (filled disk top executable descriptor).filesBelow (.live top) =
      (laidOut disk top executable descriptor).filesBelow (.live top) :=
  filesBelow_congr fun _ inner _ _ => empty.node?_filled belowRoot inner

theorem listing_filled (empty : disk.Empty top) (belowRoot : top ≠ []) :
    Archive.listing (filled disk top executable descriptor) (.live top) =
      [([binName, executableName], executable), ([descriptorName], descriptor)] := by
  rw [Archive.listing, empty.filesBelow_filled belowRoot]
  exact listing_laidOut disk belowRoot executable descriptor

/-- The names of all that lies in a directory with a bundle. -/
theorem names_filled (empty : disk.Empty top) (belowRoot : top ≠ []) {names : List Name}
    (stands : (filled disk top executable descriptor).node? (top ++ names) ≠ none) :
    names ∈ [[], [binName], [binName, executableName], [descriptorName]] := by
  rw [empty.node?_filled belowRoot] at stands
  by_cases root : names = []
  · simp [root]
  · rcases Option.ne_none_iff_exists'.mp stands with ⟨node, found⟩
    have member := mem_below_iff.mpr ⟨found, List.prefix_append top names, by simpa using root⟩
    rw [below_laidOut disk belowRoot] at member
    simp only [List.mem_cons, Prod.mk.injEq, List.not_mem_nil, or_false, List.append_assoc,
      List.append_cancel_left_eq, List.cons_append, List.nil_append] at member
    rcases member with ⟨rfl, -⟩ | ⟨rfl, -⟩ | ⟨rfl, -⟩ <;> simp

/-- A file that can be seen where a bundle is laid out is an old one, or it lies in the bundle. -/
theorem old_or_inside (empty : disk.Empty top) (belowRoot : top ≠ []) {location : Location}
    {id : Nat}
    (stands : (filled disk top executable descriptor).node? location = some (.file id)) :
    disk.node? location = some (.file id) ∨ top <+: location := by
  rw [empty.node?_filled belowRoot, node?_laidOut, node?_supplied, node?_furnished,
    empty.node?_vacated belowRoot] at stands
  split at stands
  · next same => exact .inr (same ▸ List.prefix_append ..)
  split at stands
  · next same => exact .inr (same ▸ (List.prefix_append ..).trans (List.prefix_append ..))
  split at stands
  · cases stands
  · exact .inl stands

end FileSystem.Empty

namespace Run

open BundlePacker.Bundle BundlePacker.StagingDirectory

variable {run : Run} {count : Nat} {top : Location}

/-- Whether the staging directory of a run is empty when it has been made. -/
def MakesEmpty (run : Run) : Prop :=
  run.Begins → run.made.MeansEmpty run.staging.path

/-- Whether the archive of a run does not lead into the staging directory, if it is a link. -/
def ArchivesOutside (run : Run) : Prop :=
  ∀ count, run.LaysOut count → run.laid.IsLink run.archive → ∀ top spot location,
    run.laid.locate run.staging.path = .ok (.live top) →
    run.laid.resolve .creation run.archive = .ok spot → spot.place = .live location →
    run.laid.node? location ≠ some .directory → ¬ top <+: location

/--
Whether the archive of a run does not lead to a device.  A device may refuse what is written to it,
in ways that are not those of files.
-/
def ArchivesToFile (run : Run) : Prop :=
  ∀ count, run.LaysOut count → ¬ run.laid.IsDevice run.archive

/-! ## Where a bundle is laid out -/

theorem extends_binName (nonempty : run.staging.path.bytes ≠ []) :
    Extends (run.staging.path.join ⟨binName⟩) run.staging.path [binName] :=
  extends_join nonempty isSegment_binName

/-- Where the staging directory is empty it holds nothing but the bundle that has been laid out. -/
theorem LaysOut.exists_filled (laysOut : run.LaysOut count)
    (leads : run.made.locate run.staging.path = .ok (.live top)) (empty : run.made.Empty top) :
    Admissible run.staging.executablePath executableName ∧
      Admissible run.staging.descriptorPath descriptorName ∧
      ∃ file : File, file.isReadable = true ∧
        run.laid =
          filled run.made top (written file.mode file.content) (descriptorFile run.version) := by
  have wellFormed := laysOut.wellFormed
  have nonempty : run.staging.path.bytes ≠ [] := Archive.bytes_ne_nil_of_locate leads
  have longer := extends_binName nonempty
  have longest : Extends run.staging.executablePath run.staging.path
      ([binName] ++ [executableName]) := by
    rw [show run.staging.executablePath = _ from executablePath_eq run.staging.path]
    exact longer.trans (extends_join longer.nonempty isSegment_executableName)
  have vacant : ∀ name, run.made.node? (top ++ [name]) = none := fun name =>
    empty.vacant [name] (by simp)
  have arrivesAbove : run.made.Arrives (run.staging.path.join ⟨binName⟩) top binName := by
    have stands : run.made.node? (top ++ []) = some .directory := by simpa using empty.stands
    simpa using arrives_of_extends wellFormed leads stands isSegment_binName longer
  have arrives : IsName binName →
      (run.made.put (top ++ [binName]) .directory).Arrives run.staging.executablePath
        (top ++ [binName]) executableName := by
    intro isName
    have grown : Grown run.made (run.made.put (top ++ [binName]) .directory) :=
      .put (by simp) (vacant binName)
    have wellFormedGrown : (run.made.put (top ++ [binName]) .directory).WellFormed :=
      wellFormed.put empty.stands (vacant binName) isName trivial
    refine arrives_of_extends wellFormedGrown (grown.locate leads) ?_ isSegment_executableName
      longest
    rw [node?_put _ _ _ _ (by simp), if_pos rfl]
  have copied := laysOut.toCopies.ran
  rcases copyFile_cases wellFormed empty.stands (vacant binName)
      (parent?_executablePath nonempty) longer.nonempty arrivesAbove arrives run.executable with
    ⟨reaches, id, file, reads, content, ran⟩ | ⟨fault, next, failed, -⟩
  case inr => cases failed.symm.trans copied
  have same : run.copied = (run.made.put (top ++ [binName]) .directory).putFile
      (top ++ [binName] ++ [executableName]) (written file.mode file.content) :=
    (EStateM.Result.ok.inj (copied.symm.trans ran)).2
  have grows := laysOut.toCopies.grows
  have free : run.copied.node? (top ++ [descriptorName]) = none := by
    have differs : binName ≠ descriptorName := by decide
    rw [same, node?_putFile _ _ _ _ (by simp), node?_put _ _ _ _ (by simp)]
    simp [differs, vacant]
  have arrivesLast : run.copied.Arrives run.staging.descriptorPath top descriptorName := by
    have stands : run.copied.node? (top ++ []) = some .directory := by
      simpa using grows.2.nodes _ _ empty.stands
    show run.copied.Arrives (run.staging.path.join ⟨descriptorName⟩) top descriptorName
    simpa using arrives_of_extends grows.1 (grows.2.locate leads) stands isSegment_descriptorName
      (extends_join nonempty isSegment_descriptorName)
  have wrote := laysOut.wrote
  rcases writeFile_cases free arrivesLast run.description with ⟨reachesLast, ran⟩ | ⟨-, failed⟩
  case inr => cases failed.symm.trans wrote
  refine ⟨reaches.admissible, reachesLast.admissible, file, isReadable_of_openToRead reads content,
    ?_⟩
  rw [(EStateM.Result.ok.inj (wrote.symm.trans ran)).2, same]
  rfl

theorem length_le_join {base inner : Path} (relative : inner.isAbsolute = false) :
    base.bytes.length ≤ (base.join inner).bytes.length := by
  rcases Path.join_cases base relative with ⟨none, joined⟩ | ⟨start, shape, joined⟩ | ⟨-, joined⟩
  · simp [none]
  · simp [joined, shape]
  · simp [joined]

/-- No path in the bundle that has been laid out is too long. -/
theorem withinLimits_filled {executable descriptor : File} (empty : run.made.Empty top)
    (belowRoot : top ≠ []) (admissible : Admissible run.staging.executablePath executableName)
    (admissibleLast : Admissible run.staging.descriptorPath descriptorName) :
    (filled run.made top executable descriptor).WithinLimits run.staging.path (.live top) := by
  have shape : run.staging.executablePath =
      (run.staging.path.join ⟨binName⟩).join ⟨executableName⟩ :=
    executablePath_eq run.staging.path
  have long : ((run.staging.path.join ⟨binName⟩).join ⟨executableName⟩).bytes.length < pathLimit :=
    shape ▸ admissible.short
  have longer := (length_le_join (isAbsolute_of_isSegment isSegment_executableName)).trans_lt long
  have longest := (length_le_join (isAbsolute_of_isSegment isSegment_binName)).trans_lt longer
  rintro _ names ⟨⟩ stands
  have known := empty.names_filled belowRoot stands
  simp only [List.mem_cons, List.not_mem_nil, or_false] at known
  rcases known with rfl | rfl | rfl | rfl
  · exact longest
  · exact longer
  · exact long
  · exact admissibleLast.short

/-! ## Where the archive goes -/

theorem dropLast_names_join (base : Path) {name : Name} (solid : IsSegment name) :
    (base.join ⟨name⟩).names.dropLast = base.names := by
  have relative := isAbsolute_of_isSegment solid
  by_cases nonempty : base.bytes = []
  · have none : base.names = [] := by simp [Path.names, nonempty, Path.segments]
    rcases Path.join_cases base relative with ⟨-, joined⟩ | ⟨start, shape, -⟩ | ⟨other, -⟩
    · rw [joined, names_of_isSegment solid, none, List.dropLast_singleton]
    · simp [nonempty] at shape
    · exact absurd nonempty other
  · rw [Path.names_join nonempty relative, names_of_isSegment solid, List.dropLast_concat]

theorem isAbsolute_join_segment (base : Path) {name : Name} (solid : IsSegment name) :
    (base.join ⟨name⟩).isAbsolute = base.isAbsolute := by
  have relative := isAbsolute_of_isSegment solid
  by_cases nonempty : base.bytes = []
  · rcases Path.join_cases base relative with ⟨-, joined⟩ | ⟨start, shape, -⟩ | ⟨other, -⟩
    · rw [joined, relative]
      simp [Path.isAbsolute, nonempty]
    · simp [nonempty] at shape
    · exact absurd nonempty other
  · exact Path.isAbsolute_join nonempty relative

/-- The staging directory lies below the root, even when its path leads there by a link. -/
theorem Begins.belowRoot (begins : run.Begins) (noSlash : '/' ∉ run.version.toList)
    (leads : run.made.locate run.staging.path = .ok (.live top)) (empty : run.made.Empty top) :
    top ≠ [] := by
  rintro rfl
  have ends := locate_eq_ok_iff.mp leads
  rcases reaches_of_resolve begins.wellFormed (endsInName_staging noSlash) ends with
    ⟨directory, -, reaches⟩
  have vacant := empty.vacant (directory ++ [Utf8.ofString (stagingName run.version)]) (by simp)
  cases ((reaches _ (.refl _)).resolve_vacant .target vacant).symm.trans ends

/--
What is opened for the archive does not lie in the staging directory.  That is up to the archive if
it is a link.  Otherwise it lies beside the name of the staging directory, which can not be in an
empty directory.
-/
theorem LaysOut.not_prefix (laysOut : run.LaysOut count) (noSlash : '/' ∉ run.version.toList)
    (leads : run.made.locate run.staging.path = .ok (.live top)) (empty : run.made.Empty top)
    (outside : run.ArchivesOutside) {spot : Spot} {location : Location}
    (ends : run.laid.resolve .creation run.archive = .ok spot)
    (there : spot.place = .live location)
    (noDirectory : run.laid.node? location ≠ some .directory) : ¬ top <+: location := by
  have grows := laysOut.grows
  by_cases link : run.laid.IsLink run.archive
  · exact outside count laysOut link top spot location (grows.2.locate leads) ends there noDirectory
  have begun := locate_eq_ok_iff.mp leads
  rcases reaches_beside laysOut.wellFormed (endsInName_staging noSlash) begun grows.2.keepsWays
      grows.1 (endsInName_archive noSlash) ends
      ((dropLast_names_join run.base (isSegment_archiveName noSlash)).trans
        (dropLast_names_join run.base (isSegment_stagingName noSlash)).symm)
      ((isAbsolute_join_segment run.base (isSegment_archiveName noSlash)).trans
        (isAbsolute_join_segment run.base (isSegment_stagingName noSlash)).symm) with
    ⟨directory, -, reaches⟩
  have reached := (reaches _ grows.2.keepsWays).2
  have beside : location = directory ++ [Utf8.ofString (archiveName run.version)] := by
    cases found : run.laid.node? (directory ++ [Utf8.ofString (archiveName run.version)]) with
    | none =>
        cases (reached.resolve_vacant .creation found).symm.trans ends
        exact (Place.live.inj there).symm
    | some node =>
        have kept : ∀ target, node ≠ .link target := by
          rintro target rfl
          exact link ⟨_, target, reached.resolve_occupied .entry found (.inl rfl), found⟩
        cases (reached.resolve_occupied .creation found (.inr kept)).symm.trans ends
        exact (Place.live.inj there).symm
  rw [beside, List.prefix_concat_iff]
  rintro (same | inside)
  · rw [beside, ← same] at noDirectory
    exact noDirectory (grows.2.nodes _ _ empty.stands)
  · rcases inside with ⟨names, rfl⟩
    have vacant := empty.vacant (names ++ [Utf8.ofString (stagingName run.version)]) (by simp)
    rw [← List.append_assoc] at vacant
    cases ((reaches _ (.refl _)).1.resolve_vacant .target vacant).symm.trans begun

/-- Opening the archive does not touch the bundle that has been laid out. -/
theorem LaysOut.not_writesInto (laysOut : run.LaysOut count) (noSlash : '/' ∉ run.version.toList)
    (leads : run.made.locate run.staging.path = .ok (.live top)) (empty : run.made.Empty top)
    (outside : run.ArchivesOutside) : ¬ run.laid.WritesInto (.live top) run.archive := by
  have belowRoot := laysOut.toBegins.belowRoot noSlash leads empty
  have grows := laysOut.grows
  rcases laysOut.exists_filled leads empty with ⟨-, -, file, -, same⟩
  rintro (⟨_, directory, name, ⟨⟩, ends, inside⟩ | ⟨location, id, names, ends, stands, member⟩)
  · have vacant := (resolve_holds grows.1 ends).2.1
    exact laysOut.not_prefix noSlash leads empty outside ends rfl (by simp [vacant]) inside
  · have apart := laysOut.not_prefix noSlash leads empty outside ends rfl (by simp [stands])
    rw [same] at stands member
    have old := (empty.old_or_inside belowRoot stands).resolve_right apart
    have known : id < run.made.files.length := laysOut.wellFormed.fits _ _ old
    -- The files of the bundle are newer than all files outside.
    rw [empty.filesBelow_filled belowRoot, filesBelow_laidOut run.made belowRoot] at member
    simp only [List.mem_cons, Prod.mk.injEq, List.not_mem_nil, or_false] at member
    rcases member with ⟨-, newer⟩ | ⟨-, newer⟩ <;> omega

/-- A run that has opened its archive can gather what it has laid out, and nothing else. -/
theorem Archives.gathers (archives : run.Archives count) (noSlash : '/' ∉ run.version.toList)
    (makesEmpty : run.MakesEmpty) (outside : run.ArchivesOutside) :
    run.gathered.failure = none ∧
      ∃ file, run.gathered.entries = entriesOf file run.version := by
  have laysOut := archives.toLaysOut
  rcases makesEmpty laysOut.toBegins with ⟨top, leads, empty⟩
  have belowRoot := laysOut.toBegins.belowRoot noSlash leads empty
  have grows := laysOut.grows
  rcases archives.opened with ⟨handle, opened⟩
  have changed := openedOutside_of_opens grows.1
    (laysOut.not_writesInto noSlash leads empty outside) (opens_of_ok opened)
  rcases laysOut.exists_filled leads empty with
    ⟨admissible, admissibleLast, file, readable, same⟩
  have short : run.laid.WithinLimits run.staging.path (.live top) :=
    same ▸ withinLimits_filled empty belowRoot admissible admissibleLast
  have only : Archive.listing run.laid (.live top) =
      [([binName, executableName], written file.mode file.content),
        ([descriptorName], descriptorFile run.version)] :=
    same ▸ empty.listing_filled belowRoot
  rw [gathered_eq opened]
  rcases gatherTree_of_listing readable grows.1 (grows.2.locate leads)
      (grows.2.nodes _ _ empty.stands) short only changed with ⟨complete, bundled⟩
  exact ⟨complete, file, bundled.entries_eq⟩

/-! ## How runs answer -/

variable {told : List Event} {answer : Except Error Path}

/-- A run is refused its executable, or it is interrupted, or it succeeds. -/
theorem Tells.answers (tells : run.Tells told answer) :
    (∃ fault, answer = .error fault ∧ Unfit run.session.disk run.executable fault) ∨
      MeansFile run.session.disk run.executable ∧
        (answer = .ok run.archive ∨
          ∃ fault, answer = .error fault ∧ Archive.Interrupts run.staging.path fault) := by
  cases tells with
  | unfit unfit => exact .inl ⟨_, rfl, unfit⟩
  | unmade meansFile => exact .inr ⟨meansFile, .inr ⟨_, rfl, .refused _⟩⟩
  | uncopied begins => exact .inr ⟨begins.meansFile, .inr ⟨_, rfl, .refused _⟩⟩
  | undescribed copies => exact .inr ⟨copies.meansFile, .inr ⟨_, rfl, .refused _⟩⟩
  | unopened laysOut => exact .inr ⟨laysOut.meansFile, .inr ⟨_, rfl, .refused _⟩⟩
  | incomplete archives failed =>
      rcases archives.opened with ⟨handle, opened⟩
      rw [gathered_eq opened] at failed
      have wellFormed := (opens_of_ok opened).wellFormed archives.grows.1
      exact .inr
        ⟨archives.meansFile, .inr ⟨_, rfl, Archive.interrupts_of_gatherTree wellFormed failed⟩⟩
  | complete archives _ _ _ => exact .inr ⟨archives.meansFile, .inl rfl⟩

/-- Only the system interrupts a run that archives nothing but its bundle. -/
theorem Tells.refused {fault : Error} (tells : run.Tells told (.error fault))
    (noSlash : '/' ∉ run.version.toList) (makesEmpty : run.MakesEmpty)
    (outside : run.ArchivesOutside) :
    Unfit run.session.disk run.executable fault ∨ ∃ cause, fault = .io cause := by
  cases tells with
  | unfit unfit => exact .inl unfit
  | unmade _ | uncopied _ | undescribed _ | unopened _ => exact .inr ⟨_, rfl⟩
  | incomplete archives failed =>
      rw [(archives.gathers noSlash makesEmpty outside).1] at failed
      cases failed

theorem Tells.answer_missing_iff {path : Path} {cause : Fault} (tells : run.Tells told answer) :
    answer = .error (.executableNotFound path cause) ↔
      path = run.executable ∧ run.session.disk.locate run.executable = .error cause := by
  rcases tells.answers with
    ⟨fault, rfl, unfit⟩ | ⟨⟨place, id, found, stands⟩, rfl | ⟨fault, rfl, interrupts⟩⟩
  · cases unfit with
    | missing lost => simp [lost, eq_comm]
    | irregular found noFile => simp [found]
  · simp [found]
  · cases interrupts <;> simp [found]

theorem Tells.answer_irregular_iff {path : Path} (tells : run.Tells told answer) :
    answer = .error (.notAFile path) ↔
      path = run.executable ∧ ∃ place, run.session.disk.locate run.executable = .ok place ∧
        ∀ id, run.session.disk.nodeAt? place ≠ some (.file id) := by
  rcases tells.answers with
    ⟨fault, rfl, unfit⟩ | ⟨⟨place, id, found, stands⟩, rfl | ⟨fault, rfl, interrupts⟩⟩
  · cases unfit with
    | missing lost => simp [lost]
    | irregular found noFile => simpa [found, eq_comm] using fun _ => noFile
  · simp [found, stands]
  · cases interrupts <;> simp [found, stands]

/-! ## Base directories that are written without ways back -/

/-- A staging directory that has been made has been a missing one after what stood there. -/
theorem Begins.exists_makeDirectories (begins : run.Begins) (noSlash : '/' ∉ run.version.toList)
    (wellFormed : run.session.disk.WellFormed) :
    ∃ before : FileSystem, before.WellFormed ∧ before.isDirectory run.staging.path = false ∧
      makeDirectories run.staging.path before = .ok () run.made := by
  rcases begins.begun with ⟨log, begun⟩
  have makes : ∀ session : Session,
      make run.staging.path session = .ok run.staging ⟨run.made, log⟩ →
      makeDirectories run.staging.path session.disk = .ok () run.made := by
    intro session made
    rcases Job.call_cases (makeDirectories run.staging.path) session with
      ⟨_, disk, ran, called⟩ | ⟨cause, disk, -, called⟩
    · cases (run_bind_of_ok called).symm.trans made
      exact ran
    · cases (run_bind_of_error called).symm.trans made
  cases present : run.session.disk.pathExists run.staging.path with
  | false =>
      rw [create_of_absent present] at begun
      exact ⟨_, wellFormed, isDirectory_of_absent present, makes _ begun⟩
  | true =>
      cases ran : removeTree run.staging.path run.session.disk with
      | error cause disk =>
          cases (create_of_kept present ran).symm.trans begun
      | ok _ before =>
          rw [create_of_removed present ran] at begun
          exact ⟨before,
            (WellFormed.keptByRemoving run.staging.path).removeTree.of_ok wellFormed ran,
            isDirectory_of_removeTree wellFormed (endsInName_staging noSlash) ran,
            makes ⟨before, _⟩ begun⟩

/-- A base directory that is written without ways back has a new staging directory. -/
theorem makesEmpty_of_plain (wellFormed : run.session.disk.WellFormed)
    (noSlash : '/' ∉ run.version.toList) (plain : parentName ∉ run.base.names) :
    run.MakesEmpty := by
  intro begins
  have endsInName := run.endsInName_staging noSlash
  rcases begins.exists_makeDirectories noSlash wellFormed with ⟨before, formed, missing, made⟩
  refine meansEmpty_of_makeDirectories formed endsInName.nonempty ?_ missing made
  have above : run.staging.path.names.dropLast = run.base.names :=
    dropLast_names_join run.base (isSegment_stagingName noSlash)
  rw [← List.dropLast_append_getLast? _ endsInName.last, above, List.mem_append, not_or]
  exact ⟨plain, by simpa using endsInName.neParent.symm⟩

/-! ## Base directories that lie elsewhere -/

section

variable {above : Location} (grounded : Grounded run.session.disk run.base above
  (Utf8.ofString (stagingName run.version)))

include grounded

theorem Begins.empty_of_grounded (begins : run.Begins) :
    run.made.locate run.staging.path = .ok (.live (stagingLocation above run.version)) ∧
      run.made.Empty (stagingLocation above run.version) := by
  have longer : Extends run.staging.path run.base [Utf8.ofString (stagingName run.version)] :=
    extends_stagingPath grounded
  rcases begins.made_eq grounded with ⟨admissible, same⟩
  have isName := ((grounded.arrives_here grounded.solid longer).reaches admissible).isName
  have staged := staged_vacated grounded.toSite isName
  have reaches := ((grounded.staged staged).arrives_here grounded.solid longer).reaches admissible
  rw [same]
  refine ⟨locate_eq_ok_iff.mpr (reaches.resolve_occupied .target staged.stands (.inr (by simp))),
    staged.stands, fun names more => ?_⟩
  rw [stagingLocation, node?_vacated _ (by simp)]
  simp [more]

/-- Where the base directory lies elsewhere the staging directory is made empty. -/
theorem makesEmpty_of_grounded : run.MakesEmpty :=
  fun begins => ⟨_, begins.empty_of_grounded grounded⟩

/-- Where a bundle is laid out nothing outside the staging directory has changed. -/
theorem LaysOut.staged (laysOut : run.LaysOut count) :
    Staged run.session.disk (stagingLocation above run.version) run.laid := by
  rcases laysOut.toBegins.empty_of_grounded grounded with ⟨here, empty⟩
  rcases laysOut.toBegins.made_eq grounded with ⟨admissible, same⟩
  have isName := ((grounded.arrives_here grounded.solid
    (extends_stagingPath grounded)).reaches admissible).isName
  rcases laysOut.exists_filled here empty with ⟨-, -, file, -, laid⟩
  rw [laid, same]
  exact staged_laidOut grounded.toSite isName _ _

theorem LaysOut.arrives_archive (laysOut : run.LaysOut count)
    (noSlash : '/' ∉ run.version.toList) :
    run.laid.Arrives run.archive above (Utf8.ofString (archiveName run.version)) :=
  have solid := isSegment_archiveName noSlash
  (grounded.staged (laysOut.staged grounded)).arrives_here solid
    (extends_join grounded.nonempty solid)

/-- An archive that is a link past the staging directory is one when a bundle is laid out there. -/
theorem archivesOutside_of_grounded (noSlash : '/' ∉ run.version.toList)
    (linkPassesBy : ∀ target,
      run.session.disk.node? (archiveLocation above run.version) = some (.link target) →
      ¬ run.session.disk.PassesThrough .creation run.archive
        (stagingLocation above run.version)) : run.ArchivesOutside := by
  rintro count laysOut ⟨entry, target, names, link⟩ top spot location leads ends there noDirectory
  have belowRoot := stagingLocation_ne_nil above run.version
  rcases laysOut.toBegins.empty_of_grounded grounded with ⟨here, empty⟩
  cases (laysOut.grows.2.locate here).symm.trans leads
  have staged := laysOut.staged grounded
  have isLink : run.laid.node? (archiveLocation above run.version) = some (.link target) := by
    rcases (laysOut.arrives_archive grounded noSlash).cases with reaches | ⟨-, refuses⟩
    · cases found : run.laid.node? (archiveLocation above run.version) with
      | none => cases (reaches.resolve_vacant .entry found).symm.trans names
      | some node =>
          cases (reaches.resolve_occupied .entry found (.inl rfl)).symm.trans names
          exact found.symm.trans link
    · cases (refuses .entry).symm.trans names
  rw [node?_of_staged staged belowRoot (not_prefix_archiveLocation above run.version)] at isLink
  exact (archive_of_passing_by grounded.wellFormed staged belowRoot (linkPassesBy target isLink)
    ends there noDirectory).1

/-- An archive that is neither a link nor a device is none when a bundle is laid out. -/
theorem archivesToFile_of_grounded (noSlash : '/' ∉ run.version.toList)
    (noLink : ∀ target,
      run.session.disk.node? (archiveLocation above run.version) ≠ some (.link target))
    (noDevice : run.session.disk.node? (archiveLocation above run.version) ≠
      some (.special .device)) : run.ArchivesToFile := by
  rintro count laysOut ⟨location, ends, device⟩
  have belowRoot := stagingLocation_ne_nil above run.version
  have same : run.laid.node? (archiveLocation above run.version) =
      run.session.disk.node? (archiveLocation above run.version) :=
    node?_of_staged (laysOut.staged grounded) belowRoot
      (not_prefix_archiveLocation above run.version)
  rcases (laysOut.arrives_archive grounded noSlash).cases with reaches | ⟨-, refuses⟩
  · cases found : run.laid.node? (archiveLocation above run.version) with
    | none => cases (reaches.resolve_vacant .creation found).symm.trans ends
    | some node =>
        have kept : ∀ target, node ≠ .link target := by
          rintro target rfl
          exact noLink target (same.symm.trans found)
        cases (reaches.resolve_occupied .creation found (.inr kept)).symm.trans ends
        exact noDevice (same.symm.trans device)
  · cases (refuses .creation).symm.trans ends

end

/-- Whether nothing is in the way of a run in the directory at a location. -/
structure Unhindered (run : Run) (above : Location) : Prop where
  base : run.base = pathOf above
  stands : run.session.disk.node? above = some .directory
  readable : ∃ id, run.session.disk.openToRead run.executable = .ok (.file id)
  passesBy : ¬ run.session.disk.PassesThrough .target run.executable
    (stagingLocation above run.version)
  staging : ∀ view, run.session.disk.view? (stagingLocation above run.version) = some view →
    view = .directory
  archive : ∀ view, run.session.disk.view? (archiveLocation above run.version) = some view →
    ∃ file, view = .file file ∧ file.isWritable
  addressable : Addressable (stagingLocation above run.version ++ [descriptorName])

theorem Unhindered.answer_eq {above : Location} (unhindered : run.Unhindered above)
    (wellFormed : run.session.disk.WellFormed) (noSlash : '/' ∉ run.version.toList) :
    run.answer = .ok run.archive := by
  rcases unhindered with ⟨base, stands, ⟨id, reads⟩, passesBy, staging, archive, addressable⟩
  have noLink : ∀ target,
      run.session.disk.node? (archiveLocation above run.version) ≠ some (.link target) := by
    intro target found
    rcases archive _ (view?_eq_link_iff.mpr found) with ⟨file, impossible, -⟩
    cases impossible
  have free : obstacle run.session.disk above run.version = none := by
    rw [obstacle, if_pos addressable.above]
    cases found : run.session.disk.view? (stagingLocation above run.version) with
    | none => rfl
    | some view =>
        cases staging view found
        rfl
  have admits : denial (run.session.disk.view? (archiveLocation above run.version)) = none := by
    cases found : run.session.disk.view? (archiveLocation above run.version) with
    | none => rfl
    | some view =>
        rcases archive view found with ⟨file, rfl, writable⟩
        rw [denial, if_pos writable]
  rcases sourceAt_eq_file_iff.mp (sourceAt_of_openToRead reads) with ⟨place, found, isFile⟩
  rcases wellFormed.file?_of_nodeAt? isFile with ⟨-, file, content⟩
  have shows : run.session.disk.shown run.executable = .ok (some (.file file)) := by
    rw [shown, found, Except.map, viewAt?_eq_file_iff.mpr ⟨id, isFile, content⟩]
  have delivers : Delivers run.session.disk above run.executable run.version file :=
    ⟨shows, free, isReadable_of_openToRead reads content, addressable, admits⟩
  have answered := (create_verdict run.session run.executable wellFormed stands noSlash noLink
    passesBy).1
  rw [delivers.verdict_eq] at answered
  rw [Run.answer, Run.archive, base]
  exact answered

/--
The executable is not found exactly when its path means nothing, and it is refused exactly when its
path means no regular file.  No run complains of a moment or of a descriptor, and none of an archive
that leads to no device.  It complains of nothing but a call that the system has refused, as long as
the staging directory is empty when it has been made and the archive is no link into it.  What is
archived then are two files with different names.  The staging directory is empty in every base
directory that is written without ways back, and in every one that is there and does not lie behind
its own staging directory.  In a directory where nothing is in the way there is no error.
-/
theorem answer_error_iff (run : Run) (wellFormed : run.session.disk.WellFormed)
    (noSlash : '/' ∉ run.version.toList) :
    (∀ path cause, run.answer = .error (.executableNotFound path cause) ↔
      path = run.executable ∧ run.session.disk.locate run.executable = .error cause) ∧
    (∀ path, run.answer = .error (.notAFile path) ↔
      path = run.executable ∧ ∃ place, run.session.disk.locate run.executable = .ok place ∧
        ∀ id, run.session.disk.nodeAt? place ≠ some (.file id)) ∧
    ((∀ shown, run.answer ≠ .error (.invalidTimestamp shown)) ∧
      (∀ fault, run.answer ≠ .error (.json fault)) ∧
      (run.ArchivesToFile → ∀ fault, run.answer ≠ .error (.archive fault))) ∧
    (run.MakesEmpty → run.ArchivesOutside → run.ArchivesToFile →
      (∀ fault, run.answer = .error fault →
        (∃ cause, fault = .executableNotFound run.executable cause) ∨
          fault = .notAFile run.executable ∨ ∃ cause, fault = .io cause) ∧
      ∀ count, run.Archives count → run.gathered.failure = none ∧
        run.gathered.entries.map (·.name) = [Descriptor.executablePath, Descriptor.fileName]) ∧
    (parentName ∉ run.base.names → run.MakesEmpty) ∧
    (∀ above,
      Grounded run.session.disk run.base above (Utf8.ofString (stagingName run.version)) →
      run.MakesEmpty ∧
        ((∀ target,
            run.session.disk.node? (archiveLocation above run.version) = some (.link target) →
            ¬ run.session.disk.PassesThrough .creation run.archive
              (stagingLocation above run.version)) →
          run.ArchivesOutside) ∧
        ((∀ target,
            run.session.disk.node? (archiveLocation above run.version) ≠ some (.link target)) →
          run.session.disk.node? (archiveLocation above run.version) ≠ some (.special .device) →
          run.ArchivesToFile)) ∧
    ∀ above, run.Unhindered above → run.answer = .ok run.archive := by
  rcases exists_tells run wellFormed noSlash with ⟨told, -, tells⟩
  refine ⟨fun _ _ => tells.answer_missing_iff, fun _ => tells.answer_irregular_iff, ?others,
    fun makesEmpty outside _ => ⟨?refused, ?names⟩, makesEmpty_of_plain wellFormed noSlash,
    fun above grounded => ⟨makesEmpty_of_grounded grounded,
      archivesOutside_of_grounded grounded noSlash, archivesToFile_of_grounded grounded noSlash⟩,
    fun above unhindered => unhindered.answer_eq wellFormed noSlash⟩
  case others =>
    rcases tells.answers with ⟨fault, answered, unfit⟩ | ⟨-, answered | ⟨fault, answered, cut⟩⟩
    · rw [answered]
      cases unfit <;> simp
    · simp [answered]
    · rw [answered]
      cases cut <;> simp
  case refused =>
    intro fault answered
    rcases (answered ▸ tells).refused noSlash makesEmpty outside with unfit | refused
    · cases unfit with
      | missing _ => exact .inl ⟨_, rfl⟩
      | irregular _ _ => exact .inr (.inl rfl)
    · exact .inr (.inr refused)
  case names =>
    intro count archives
    rcases archives.gathers noSlash makesEmpty outside with ⟨complete, file, entries⟩
    exact ⟨complete, by rw [entries]; rfl⟩

/-- Nothing is in the way of the first version, and a directory is in the way of the next. -/
theorem answer_error_iff_sample :
    sample.WellFormed ∧ '/' ∉ "0".toList ∧ '/' ∉ "1".toList ∧
      (inSample "0").answer = .ok (inSample "0").archive ∧
      ∃ cause, (inSample "1").answer = .error (.io cause) := by
  have meansFile : MeansFile sample (.ofString "/sur") := ⟨.live [Utf8.ofString "sur"], 0, rfl, rfl⟩
  have unseen : ∀ {location}, sample.node? location = none → sample.view? location = none :=
    wellFormed_sample.filed.view?_eq_none_iff.mpr
  have unhindered : (inSample "0").Unhindered [] :=
    { base := rfl
      stands := rfl
      readable := ⟨0, rfl⟩
      passesBy := by decide
      staging := by
        intro view seen
        have none : sample.view? (stagingLocation [] "0") = none := unseen (by decide)
        cases none.symm.trans seen
      archive := by
        intro view seen
        have none : sample.view? (archiveLocation [] "0") = none := unseen (by decide)
        cases none.symm.trans seen
      addressable := by decide }
  have grounded : Grounded sample (pathOf []) [] (Utf8.ofString (stagingName "1")) :=
    grounded_pathOf ⟨wellFormed_sample, rfl, isSegment_stagingName (by decide)⟩ (by decide)
  have directory : sample.node? (archiveLocation [] "1") = some .directory := by decide
  refine ⟨wellFormed_sample, by decide, by decide, ?_, ?_⟩
  · rcases answer_error_iff (inSample "0") wellFormed_sample (by decide) with
      ⟨-, -, -, -, -, -, succeeds⟩
    exact succeeds [] unhindered
  · rcases answer_error_iff (inSample "1") wellFormed_sample (by decide) with
      ⟨missing, irregular, -, errors, plain, past, -⟩
    have makesEmpty := plain (by decide)
    rcases past [] grounded with ⟨-, outside, toFile⟩
    have noLink : ∀ target, (inSample "1").session.disk.node? (archiveLocation [] "1") ≠
        some (.link target) := by
      intro target link
      cases directory.symm.trans link
    have noDevice : (inSample "1").session.disk.node? (archiveLocation [] "1") ≠
        some (.special .device) := by
      intro device
      cases directory.symm.trans device
    have others :=
      (errors makesEmpty (outside fun target link => absurd link (noLink target))
        (toFile noLink noDevice)).1
    rcases exists_error_inSample with ⟨fault, failed⟩
    rcases meansFile with ⟨place, id, found, stands⟩
    rcases others fault failed with ⟨cause, rfl⟩ | rfl | ⟨cause, rfl⟩
    · cases ((missing _ cause).mp failed).2.symm.trans found
    · rcases ((irregular _).mp failed).2 with ⟨other, leads, noFile⟩
      cases leads.symm.trans found
      exact absurd stands (noFile id)
    · exact ⟨cause, failed⟩

/--
A file system in which a staging directory holds a file that is not called by text, an archive is a
file that its owner may not write to, and another file one that its owner may not read.
-/
def obstinate : FileSystem :=
  stateAfter
    (do
      writeFile ⟨Utf8.ofString "/sur-1.artifactbundle_bundle/" ++ [0xFF]⟩ (.plain [])
      changeMode (.ofString "/sur-2.artifactbundle.zip") 0o444
      writeFile (.ofString "/shut") (.plain [0x78])
      changeMode (.ofString "/shut") 0o200)
    crowded

theorem wellFormed_obstinate : obstinate.WellFormed := by
  refine Keeps.bind (keeps_writeFile _ _) (fun _ => ?_) _ wellFormed_crowded
  refine Keeps.bind (keeps_changeMode _ _) fun _ => ?_
  exact Keeps.bind (keeps_writeFile _ _) fun _ => keeps_changeMode _ _

/-- A run whose base directory is another one when a link to it has been removed. -/
def crossing : Run :=
  ⟨.ofString "/lib/sur-1.artifactbundle_bundle/../..", .ofString "/sur", "1", ⟨obstinate, []⟩⟩

/-- A run whose archive can not be written. -/
def denied : Run :=
  ⟨pathOf [], .ofString "/sur", "2", ⟨obstinate, []⟩⟩

/-- A run whose executable can not be read. -/
def shut : Run :=
  ⟨pathOf [], .ofString "/shut", "3", ⟨obstinate, []⟩⟩

/-- Whether a run complains of a name that is no text, or else of a file that it may not open. -/
def complains : EStateM.Result Error Session Path → Option Bool
  | .error (.nameNotText _) _ => some true
  | .error (.io (.refused .accessDenied)) _ => some false
  | _ => none

theorem exists_of_complains_true {result : EStateM.Result Error Session Path}
    (complained : complains result = some true) :
    ∃ path last, result = .error (.nameNotText path) last := by
  unfold complains at complained
  split at complained
  · next path last => exact ⟨path, last, rfl⟩
  · cases complained
  · cases complained

theorem exists_of_complains_false {result : EStateM.Result Error Session Path}
    (complained : complains result = some false) :
    ∃ last, result = .error (.io (.refused .accessDenied)) last := by
  unfold complains at complained
  split at complained
  · cases complained
  · next last => exact ⟨last, rfl⟩
  · cases complained

set_option maxRecDepth 8000 in
/--
The first run comes upon an older staging directory, the next one upon an older archive, and the
last one upon the mode of its executable.
-/
theorem complains_obstinate :
    complains (Bundle.create crossing.base crossing.executable crossing.version crossing.session) =
        some true ∧
      complains (Bundle.create denied.base denied.executable denied.version denied.session) =
        some false ∧
      complains (Bundle.create shut.base shut.executable shut.version shut.session) =
        some false := by
  rcases Descriptor.exists_ofString_render (.forExecutable "1") with ⟨bytes, text⟩
  rcases Descriptor.exists_ofString_render (.forExecutable "2") with ⟨others, otherText⟩
  rcases Descriptor.exists_ofString_render (.forExecutable "3") with ⟨unread, lastText⟩
  simp only [crossing, denied, shut, Bundle.create, assemble, addDescriptor_eq, text, otherText,
    lastText]
  refine ⟨?_, ?_, ?_⟩ <;> cbv

/--
The first run is refused a name in the older staging directory.  In the others nothing is in the way
but the mode of the older archive, or that of the executable.
-/
theorem answer_obstinate :
    obstinate.WellFormed ∧
      ('/' ∉ crossing.version.toList ∧ obstinate.isDirectory crossing.base = true ∧
        MeansFile obstinate crossing.executable ∧ ¬ obstinate.IsLink crossing.archive ∧
        ∃ path, crossing.answer = .error (.nameNotText path)) ∧
      obstinate.node? [] = some .directory ∧
      (∀ run ∈ [denied, shut],
        '/' ∉ run.version.toList ∧ run.base = pathOf [] ∧ run.session.disk = obstinate ∧
          MeansFile obstinate run.executable ∧
          ¬ obstinate.PassesThrough .target run.executable (stagingLocation [] run.version) ∧
          obstinate.node? (stagingLocation [] run.version) = none ∧
          Addressable (stagingLocation [] run.version ++ [descriptorName]) ∧
          run.answer = .error (.io (.refused .accessDenied))) ∧
      obstinate.node? (archiveLocation [] denied.version) = some (.file 2) ∧
      obstinate.node? (archiveLocation [] shut.version) = none := by
  have meansFile : MeansFile obstinate (.ofString "/sur") :=
    ⟨.live [Utf8.ofString "sur"], 0, rfl, rfl⟩
  have vacant : obstinate.resolve .entry crossing.archive =
      .ok (.vacant [Utf8.ofString "lib"] (Utf8.ofString (archiveName "1"))) := by
    cbv
  rcases complains_obstinate with ⟨first, second, third⟩
  rcases exists_of_complains_true first with ⟨path, left, crosses⟩
  refine ⟨wellFormed_obstinate, ⟨by decide, by cbv, meansFile, ?noLink,
    path, answer_eq_error_iff.mpr ⟨left, crosses⟩⟩, rfl, ?refused, by decide, by decide⟩
  case noLink =>
    rintro ⟨location, target, ends, -⟩
    cases vacant.symm.trans ends
  case refused =>
    simp only [List.forall_mem_cons]
    refine ⟨?denied, ?shut, by simp⟩
    case denied =>
      exact ⟨by decide, rfl, rfl, meansFile, by decide, by decide, by decide,
        answer_eq_error_iff.mpr (exists_of_complains_false second)⟩
    case shut =>
      have meansShut : MeansFile obstinate shut.executable :=
        ⟨.live [Utf8.ofString "shut"], _, rfl, rfl⟩
      exact ⟨by decide, rfl, rfl, meansShut, by decide, by decide, by decide,
        answer_eq_error_iff.mpr (exists_of_complains_false third)⟩

end Run

end BundlePacker
