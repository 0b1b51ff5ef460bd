import BundlePacker.Proofs.Bundle.Steps

/-!
# How runs end

A run that does not get as far as a staging directory changes nothing.  Every other one takes its
staging directory away at the end, whatever state it is in by then: in one of the states in which a
bundle is laid out, with an archive that has been written, or with one that has been given up.

The main statements say that these are the only ends of a run, and what the states before the last
step have in common: whatever a path sees that passes by the staging directory is still there.
-/

namespace BundlePacker.Bundle

open FileSystem
open StagingDirectory

variable {session : Session} {disk state : FileSystem} {base archive executable path : Path}
  {above : Location} {version : String} {place : Place} {file : File} {handle : Handle}
  {opened : FileSystem}

/-! ## What is retained until the staging directory is taken away -/

/-- Whether opening a path once a bundle is laid out empties the file with an identity. -/
def Overwrites (disk : FileSystem) (top : Location) (version : String) (path : Path)
    (id : Nat) : Prop :=
  ∃ file opened, openToWrite path (prepared disk top file version) = .ok (.file id) opened

/-- Whether a place is that of a directory, or of a file that is not overwritten. -/
def Spared (disk : FileSystem) (top : Location) (version : String) (archive : Path)
    (place : Place) : Prop :=
  disk.nodeAt? place = some .directory ∨
    ∃ id, disk.nodeAt? place = some (.file id) ∧ ¬ Overwrites disk top version archive id

/-- What all states of a run have in common once there is a staging directory. -/
structure Retains (disk : FileSystem) (top : Location) (version : String) (archive : Path)
    (state : FileSystem) : Prop where
  wellFormed : state.WellFormed
  stands : state.node? top = some .directory
  places : state.workingDirectory = disk.workingDirectory.without top
  directories : ∀ location, ¬ top <+: location → disk.node? location = some .directory →
    state.node? location = some .directory
  sees : ∀ path place, disk.locate path = .ok place → ¬ disk.PassesThrough .target path top →
    Spared disk top version archive place →
    ∀ entry ∈ disk.lookedUp .target path, state.node? entry = disk.node? entry
  files : ∀ id, id < disk.files.length → ¬ Overwrites disk top version archive id →
    state.file? id = disk.file? id

theorem node?_of_staged {top : Location} (staged : Staged disk top state) (belowRoot : top ≠ [])
    {other : Location} (outside : ¬ top <+: other) : state.node? other = disk.node? other := by
  rw [staged.changed.nodes other outside, node?_cut _ _ _ belowRoot, if_neg outside]

theorem retains_of_staged {top : Location} (staged : Staged disk top state) (belowRoot : top ≠ []) :
    Retains disk top version archive state where
  wellFormed := staged.wellFormed
  stands := staged.stands
  places := staged.changed.places
  directories _ outside directory :=
    (node?_of_staged staged belowRoot outside).trans directory
  sees _ _ _ passesBy _ _ member :=
    node?_of_staged staged belowRoot (not_prefix_of_passing_by passesBy member)
  files _ known _ := file?_of_grown staged.changed.files known

/-- What is opened for the archive, and written to it, is retained as well. -/
theorem retains_of_opened {name : Name} (site : Site disk above name) (isName : IsName name)
    (ran : openToWrite archive (prepared disk (above ++ [name]) file version) = .ok handle opened)
    (entries : List Archive.Entry) :
    Retains disk (above ++ [name]) version archive
      (stateAfter (write handle (.archive entries)) opened) := by
  have staged := staged_prepared site isName file version
  have belowRoot : above ++ [name] ≠ [] := by simp
  have opens := opens_of_ok ran
  have keeps : ∀ location node, ¬ above ++ [name] <+: location →
      disk.node? location = some node →
      (stateAfter (write handle (.archive entries)) opened).node? location = some node := by
    intro location node outside found
    rw [node?_write]
    exact opens.keeps staged.wellFormed _ _ ((node?_of_staged staged belowRoot outside).trans found)
  refine
    { wellFormed := wellFormed_write (opens.wellFormed staged.wellFormed)
      stands := ?_
      places := ?_
      directories := fun location outside => keeps location .directory outside
      sees := ?_
      files := ?_ }
  · rw [node?_write]
    exact opens.keeps staged.wellFormed _ _ staged.stands
  · rw [(tree_write handle entries opened).2, opens.workingDirectory, staged.changed.places]
    rfl
  · intro path place found passesBy _ entry member
    rcases stands_of_mem_lookedUp found member with ⟨node, stands⟩
    rw [stands]
    exact keeps entry node (not_prefix_of_passing_by passesBy member) stands
  · intro id known spared
    have other : handle ≠ .file id := by
      rintro rfl
      exact spared ⟨file, opened, ran⟩
    have grown := staged.changed.files
    rw [opens.file?_write (Nat.lt_of_lt_of_le known grown.length_le) other]
    exact file?_of_grown grown known

/-- A grounded path is grounded still in what has been retained. -/
theorem Retains.grounded {name : Name}
    (retains : Retains disk (above ++ [name]) version archive state)
    (grounded : Grounded disk base above name) : Grounded state base above name := by
  have spared : Spared disk (above ++ [name]) version archive (.live above) :=
    .inl grounded.stands
  exact grounded.moved retains.wellFormed
    (retains.directories above (not_prefix_directory above name) grounded.stands)
    (moves_without (by simp)) retains.places fun entry member _ =>
      retains.sees base _ grounded.leads grounded.passesBy spared entry member

/-- What a path ends at that passes by the staging directory is there once a bundle is laid out. -/
theorem resolve_prepared {name : Name} (site : Site disk above name) (isName : IsName name)
    (file : File) (found : disk.locate path = .ok place)
    (passesBy : ¬ disk.PassesThrough .target path (above ++ [name])) :
    (prepared disk (above ++ [name]) file version).resolve .target path =
        .ok (.occupied (place.without (above ++ [name]))) ∧
      (prepared disk (above ++ [name]) file version).lookedUp .target path =
        disk.lookedUp .target path := by
  have staged := staged_prepared site isName file version
  have same : ∀ entry ∈ disk.lookedUp .target path, ¬ above ++ [name] <+: entry →
      (prepared disk (above ++ [name]) file version).node? entry = disk.node? entry :=
    fun _ _ => node?_of_staged staged (by simp)
  rcases resolve_moved (moves_without (by simp)) staged.changed.places
    (seenAlike_of_passing_by same passesBy) with ⟨resolved, looked⟩
  rw [locate_eq_ok_iff.mp found] at resolved
  exact ⟨resolved, looked⟩

/-- A path to something that is spared does not cross the entry of the archive. -/
theorem archive_not_mem_lookedUp {name last : Name} (grounded : Grounded disk base above name)
    (isName : IsName name) (solid : IsSegment last) (longer : Extends archive base [last])
    (ran : openToWrite archive (prepared disk (above ++ [name]) file version) = .ok handle opened)
    (found : disk.locate path = .ok place)
    (passesBy : ¬ disk.PassesThrough .target path (above ++ [name]))
    (spared : Spared disk (above ++ [name]) version archive place) :
    above ++ [last] ∉ disk.lookedUp .target path := by
  intro member
  have staged := staged_prepared grounded.toSite isName file version
  have ground := grounded.staged staged
  have same : ∀ other, ¬ above ++ [name] <+: other →
      (prepared disk (above ++ [name]) file version).node? other = disk.node? other :=
    fun other => node?_of_staged staged (by simp)
  rcases resolve_prepared grounded.toSite isName file found passesBy with ⟨resolved, looked⟩
  have opens := opens_of_ok ran
  rcases opens.exists_spot staged.wellFormed with ⟨spot, ends, leaf⟩
  rcases (ground.arrives_here solid longer).cases with reaches | ⟨-, refuses⟩
  · have meets := eq_of_mem_lookedUp staged.wellFormed ground.stands reaches ends leaf resolved
      (looked ▸ member)
    subst meets
    rcases spared with directory | ⟨id, isFile, apart⟩
    · exact leaf (nodeAt?_without same directory)
    · have noDirectory : disk.nodeAt? (Spot.occupied place).place ≠ some .directory := by
        simp [Spot.place, isFile]
      rcases (resolve_mem_lookedUp grounded.wellFormed
        (locate_eq_ok_iff.mp found)).resolve_left noDirectory with ⟨entry, entered, rfl⟩
      have outside := not_prefix_of_passing_by passesBy entered
      rw [Place.without_live outside] at ends
      have emptied := opens.eq_of_file ends ((same entry outside).trans isFile)
      subst emptied
      exact apart ⟨file, _, ran⟩
  · rw [refuses] at ends
    cases ends

/-- When the archive is given up it is taken away, and nothing else with it. -/
theorem retains_of_discarded {name last : Name} (grounded : Grounded disk base above name)
    (isName : IsName name) (solid : IsSegment last) (longer : Extends archive base [last])
    (differs : last ≠ name)
    (ran : openToWrite archive (prepared disk (above ++ [name]) file version) = .ok handle opened)
    (entries : List Archive.Entry) :
    Retains disk (above ++ [name]) version archive
      (stateAfter (removeFile archive)
        (stateAfter (write handle (.archive entries)) opened)) := by
  have retains := retains_of_opened grounded.toSite isName ran entries
  rcases removeFile_cases ((retains.grounded grounded).arrives_here solid longer) with
    ⟨node, found, leaf, removed⟩ | ⟨fault, failed⟩
  · rw [stateAfter, removed]
    refine
      { wellFormed := retains.wellFormed.cutAt (by simp)
        stands := ?_
        places := (retains.wellFormed.workingDirectory_cut_leaf found leaf).trans retains.places
        directories := ?_
        sees := ?_
        files := retains.files }
    · refine (retains.wellFormed.node?_cut_leaf found leaf ?_).trans retains.stands
      simpa using differs.symm
    · intro location outside directory
      have stands := retains.directories location outside directory
      refine (retains.wellFormed.node?_cut_leaf found leaf ?_).trans stands
      rintro rfl
      rw [found] at stands
      exact leaf (Option.some.inj stands)
    · intro path place means passesBy spared entry member
      refine (retains.wellFormed.node?_cut_leaf found leaf ?_).trans
        (retains.sees path place means passesBy spared entry member)
      rintro rfl
      exact archive_not_mem_lookedUp grounded isName solid longer ran means passesBy spared member
  · rw [stateAfter, failed]
    exact retains

/-! ## The ends of a run -/

/-- Whether a run gets as far as its staging directory. -/
structure Begins (disk : FileSystem) (base executable : Path) (above : Location)
    (version : String) : Prop where
  meansFile : MeansFile disk executable
  admissible : Admissible (stagingPath base version) (Utf8.ofString (stagingName version))
  clearable : ∀ node, disk.node? (stagingLocation above version) = some node →
    node = .directory ∨ ∃ target, node = .link target
  exists_of_stands : ∀ node, disk.node? (stagingLocation above version) = some node →
    disk.pathExists (stagingPath base version) = true

/-- Why a run does not begin. -/
inductive Prevents (disk : FileSystem) (base executable : Path) (above : Location)
    (version : String) : Error → Prop
  | unfit {fault : Error} (unfit : Unfit disk executable fault) :
      Prevents disk base executable above version fault
  | obstructed {cause : Fault} (meansFile : MeansFile disk executable)
      (obstructs : Obstructs disk (stagingPath base version) above
        (Utf8.ofString (stagingName version)) cause) :
      Prevents disk base executable above version (.io cause)

theorem Prevents.cause {fault : Error}
    (prevents : Prevents disk base executable above version fault) :
    ¬ MeansFile disk executable ∨ disk.Refuses (stagingPath base version) ∨
      ∃ node, disk.node? (stagingLocation above version) = some node ∧ node ≠ .directory := by
  cases prevents with
  | unfit unfit =>
      exact .inl unfit.not_meansFile
  | obstructed meansFile obstructs =>
      exact .inr obstructs.cause

/-- Why a run that has begun does not get as far as its archive. -/
inductive Hinders (disk : FileSystem) (base executable : Path) (above : Location)
    (version : String) : Fault → Prop
  | spoiled {cause : Fault}
      (spoils : Spoils disk (stagingPath base version) (stagingLocation above version) executable
        cause) :
      Hinders disk base executable above version cause
  | unopened {file : File} {cause : Fault} {next : FileSystem}
      (admissible : Admissible (descriptorPath ⟨stagingPath base version⟩) descriptorName)
      (reads : ∃ id, (furnished disk (stagingLocation above version)).openToRead executable =
        .ok (.file id))
      (failed : openToWrite (archivePath base version)
        (prepared disk (stagingLocation above version) file version) = .error cause next) :
      Hinders disk base executable above version cause

/-- Whether a run gets as far as its archive, with what the executable was by then. -/
structure Archives (disk : FileSystem) (base executable : Path) (above : Location)
    (version : String) (file : File) (handle : Handle) (opened : FileSystem) : Prop where
  reached : (furnished disk (stagingLocation above version)).Reaches
    (executablePath ⟨stagingPath base version⟩) (stagingLocation above version ++ [binName])
    executableName
  reachedLast : (supplied disk (stagingLocation above version)
      (written file.mode file.content)).Reaches
    (descriptorPath ⟨stagingPath base version⟩) (stagingLocation above version) descriptorName
  copied : ∃ id,
    (furnished disk (stagingLocation above version)).openToRead executable = .ok (.file id) ∧
      disk.file? id = some file
  ran : openToWrite (archivePath base version)
    (prepared disk (stagingLocation above version) file version) = .ok handle opened

/-- How a run ends. -/
inductive Ends (session : Session) (base executable : Path) (above : Location)
    (version : String) : EStateM.Result Error Session Path → Prop
  /-- The run has not begun, and nothing has changed. -/
  | unchanged {fault : Error} {log : List Event}
      (prevents : Prevents session.disk base executable above version fault) :
      Ends session base executable above version (.error fault ⟨session.disk, log⟩)
  /-- The bundle could not be laid out, or its archive not be opened. -/
  | abandoned {cause : Fault} {state : FileSystem} {log : List Event}
      (begins : Begins session.disk base executable above version)
      (staged : Staged session.disk (stagingLocation above version) state)
      (hinders : Hinders session.disk base executable above version cause) :
      Ends session base executable above version
        (.error (.io cause) ⟨state.cut (stagingLocation above version), log⟩)
  /-- The archive has been written. -/
  | archived {file : File} {handle : Handle} {opened : FileSystem} {log : List Event}
      (begins : Begins session.disk base executable above version)
      (archives : Archives session.disk base executable above version file handle opened)
      (complete : (Archive.gatherTree opened handle (stagingPath base version)).failure = none) :
      Ends session base executable above version
        (.ok (archivePath base version)
          ⟨(Archive.archived opened handle (stagingPath base version)).cut
            (stagingLocation above version), log⟩)
  /-- The archive has been given up. -/
  | discarded {file : File} {handle : Handle} {opened : FileSystem} {fault : Error}
      {log : List Event}
      (begins : Begins session.disk base executable above version)
      (archives : Archives session.disk base executable above version file handle opened)
      (incomplete :
        (Archive.gatherTree opened handle (stagingPath base version)).failure = some fault) :
      Ends session base executable above version
        (.error fault
          ⟨(stateAfter (removeFile (archivePath base version))
            (Archive.archived opened handle (stagingPath base version))).cut
              (stagingLocation above version), log⟩)

theorem extends_stagingPath
    (grounded : Grounded disk base above (Utf8.ofString (stagingName version))) :
    Extends (stagingPath base version) base [Utf8.ofString (stagingName version)] :=
  extends_join grounded.nonempty grounded.solid

theorem extends_archivePath
    (grounded : Grounded disk base above (Utf8.ofString (stagingName version)))
    (noSlash : '/' ∉ version.toList) :
    Extends (archivePath base version) base [Utf8.ofString (archiveName version)] :=
  extends_join grounded.nonempty (isSegment_archiveName noSlash)

theorem Begins.isName (begins : Begins disk base executable above version)
    (grounded : Grounded disk base above (Utf8.ofString (stagingName version))) :
    IsName (Utf8.ofString (stagingName version)) :=
  ((grounded.arrives_here grounded.solid (extends_stagingPath grounded)).reaches
    begins.admissible).isName

section

variable (grounded : Grounded session.disk base above (Utf8.ofString (stagingName version)))

include grounded

/-- What fails while a bundle is assembled is the end of a run, up to the staging directory. -/
theorem create_of_retained {made : Session} {fault : Error} {log : List Event}
    (begins : Begins session.disk base executable above version)
    (checked : checkExecutable executable session = .ok () session)
    (begun : StagingDirectory.create (stagingPath base version) session =
      .ok ⟨stagingPath base version⟩ made)
    (failed : assemble ⟨stagingPath base version⟩ executable (archivePath base version) version
      made = .error fault ⟨state, log⟩)
    (retains : Retains session.disk (stagingLocation above version) version
      (archivePath base version) state) :
    create base executable version session =
      .error fault ⟨state.cut (stagingLocation above version), log⟩ :=
  create_of_failed checked begun failed
    (abandon_of_stands (retains.grounded grounded) (extends_stagingPath grounded)
      begins.admissible retains.stands log)

/-- Once a bundle is laid out the run ends as its archive does. -/
theorem ends_of_assembled {made : Session} {log : List Event}
    (noSlash : '/' ∉ version.toList)
    (fits : Admissible (descriptorPath ⟨stagingPath base version⟩) descriptorName)
    (reads : ∃ id, (furnished session.disk (stagingLocation above version)).openToRead executable =
      .ok (.file id))
    (begins : Begins session.disk base executable above version)
    (checked : checkExecutable executable session = .ok () session)
    (begun : StagingDirectory.create (stagingPath base version) session =
      .ok ⟨stagingPath base version⟩ made)
    (assembled : assemble ⟨stagingPath base version⟩ executable (archivePath base version) version
        made =
      Archive.create (stagingPath base version) (archivePath base version)
        ⟨prepared session.disk (stagingLocation above version) file version, log⟩)
    (archives : ∀ handle opened,
      openToWrite (archivePath base version)
          (prepared session.disk (stagingLocation above version) file version) =
        .ok handle opened →
      Archives session.disk base executable above version file handle opened) :
    Ends session base executable above version (create base executable version session) := by
  have isName := begins.isName grounded
  have staged : Staged session.disk (stagingLocation above version)
      (prepared session.disk (stagingLocation above version) file version) :=
    staged_prepared grounded.toSite isName file version
  cases ran : openToWrite (archivePath base version)
      (prepared session.disk (stagingLocation above version) file version) with
  | error cause next =>
      have opens := opens_openToWrite
        (prepared session.disk (stagingLocation above version) file version)
        (archivePath base version)
      rw [ran] at opens
      cases opens
      have failed := assembled.trans (Archive.create_of_refused ran)
      rw [create_of_retained grounded begins checked begun failed
        (retains_of_staged staged (stagingLocation_ne_nil above version))]
      exact .abandoned begins staged (.unopened fits reads ran)
  | ok handle opened =>
      cases gathered : (Archive.gatherTree opened handle (stagingPath base version)).failure with
      | none =>
          have archived := @Archive.create_of_complete
            ⟨prepared session.disk (stagingLocation above version) file version, log⟩ _
            (stagingPath base version) _ _ ran gathered
          rcases archived with ⟨later, done⟩
          have retains := retains_of_opened grounded.toSite isName ran
            (Archive.gatherTree opened handle (stagingPath base version)).entries
          have removed := remove_of_removed ((retains.grounded grounded).removeTree_eq
            (extends_stagingPath grounded) begins.admissible retains.stands) later
          rw [create_of_assembled checked begun (assembled.trans done) removed]
          exact .archived begins (archives handle opened ran) gathered
      | some fault =>
          have refused := @Archive.create_of_incomplete
            ⟨prepared session.disk (stagingLocation above version) file version, log⟩ _
            (stagingPath base version) _ _ ran _ gathered
          rcases refused with ⟨later, failed⟩
          have retains := retains_of_discarded grounded isName (isSegment_archiveName noSlash)
            (extends_archivePath grounded noSlash) (archiveName_ne_stagingName version) ran
            (Archive.gatherTree opened handle (stagingPath base version)).entries
          rw [create_of_retained grounded begins checked begun (assembled.trans failed) retains]
          exact .discarded begins (archives handle opened ran) gathered

/-- Every run from a grounded path ends in one of these ways. -/
theorem ends_create (noSlash : '/' ∉ version.toList) (executable : Path) :
    Ends session base executable above version (create base executable version session) := by
  have longer := extends_stagingPath grounded
  rcases checkExecutable_cases session executable with
    ⟨meansFile, checked⟩ | ⟨fault, unfit, failed⟩
  · rcases StagingDirectory.create_cases grounded longer with
      ⟨admissible, clearable, log, begun⟩ | ⟨cause, log, obstructs, failed⟩
    · have begins : Begins session.disk base executable above version :=
        ⟨meansFile, admissible, fun node found => (clearable node found).1,
          fun node found => (clearable node found).2⟩
      have isName := begins.isName grounded
      rcases assemble_cases grounded isName longer admissible executable
          (archivePath base version) log with
        ⟨cause, next, failed, staged, spoils⟩ |
          ⟨id, file, later, reached, reachedLast, reads, content, assembled⟩
      · rw [create_of_retained grounded begins checked begun failed
          (retains_of_staged staged (stagingLocation_ne_nil above version))]
        exact .abandoned begins staged (.spoiled spoils)
      · exact ends_of_assembled grounded noSlash reachedLast.admissible ⟨id, reads⟩ begins checked
          begun assembled fun handle opened ran => ⟨reached, reachedLast, ⟨id, reads, content⟩, ran⟩
    · rw [create, run_bind_of_ok checked, run_bind_of_error failed]
      exact .unchanged (.obstructed meansFile obstructs)
  · rw [create, run_bind_of_error failed]
    exact .unchanged (.unfit unfit)

/-- A run has changed nothing, or it has retained what counts up to its last step. -/
theorem create_retains (noSlash : '/' ∉ version.toList) (executable : Path) :
    ((stateAfter (create base executable version) session).disk = session.disk ∧
        (¬ MeansFile session.disk executable ∨ session.disk.Refuses (stagingPath base version) ∨
          ∃ node, session.disk.node? (stagingLocation above version) = some node ∧
            node ≠ .directory)) ∨
      Begins session.disk base executable above version ∧
        ∃ state, Retains session.disk (stagingLocation above version) version
            (archivePath base version) state ∧
          (stateAfter (create base executable version) session).disk =
            state.cut (stagingLocation above version) := by
  have ends := ends_create grounded noSlash executable
  rw [stateAfter]
  generalize create base executable version session = result at ends
  cases ends with
  | unchanged prevents =>
      exact .inl ⟨rfl, prevents.cause⟩
  | abandoned begins staged hinders =>
      exact .inr ⟨begins, _, retains_of_staged staged (stagingLocation_ne_nil above version), rfl⟩
  | archived begins archives complete =>
      exact .inr ⟨begins, _,
        retains_of_opened grounded.toSite (begins.isName grounded) archives.ran _, rfl⟩
  | discarded begins archives incomplete =>
      exact .inr ⟨begins, _,
        retains_of_discarded grounded (begins.isName grounded) (isSegment_archiveName noSlash)
          (extends_archivePath grounded noSlash) (archiveName_ne_stagingName version)
          archives.ran _, rfl⟩

end

end BundlePacker.Bundle
