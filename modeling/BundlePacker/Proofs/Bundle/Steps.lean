import BundlePacker.Proofs.Bundle.Ground
import BundlePacker.Proofs.Preservation

/-!
# The steps towards a bundle

Every step of making a bundle either brings the staging directory into its next state or fails, and
then the staging directory is in one of its states still.  So whatever step fails, taking the
staging directory away leaves what was there before the run, without an older staging directory.
-/

namespace BundlePacker

open FileSystem

namespace StagingDirectory

variable {session : Session} {base path : Path} {above : Location} {name : Name} {fault : Error}

/-! ## Making a staging directory -/

theorem make_of_made {path : Path} {next : FileSystem}
    (made : makeDirectories path session.disk = .ok () next) :
    ∃ log, make path session = .ok ⟨path⟩ ⟨next, log⟩ :=
  ⟨_, run_bind_of_ok (Job.call_of_ok made)⟩

theorem make_of_refused {path : Path} {cause : Fault} {next : FileSystem}
    (refused : makeDirectories path session.disk = .error cause next) :
    make path session = .error (.io cause) ⟨next, session.log⟩ :=
  run_bind_of_error (Job.call_of_error refused)

theorem create_of_absent {path : Path} (absent : session.disk.pathExists path = false) :
    create path session = make path session := by
  rw [create, run_bind_of_ok (run_get _), absent]
  rfl

theorem create_of_present {path : Path} (present : session.disk.pathExists path = true) :
    create path session =
      (Job.call (removeTree path) >>= fun _ => make path)
        ⟨session.disk, session.log ++ [.removingStale path]⟩ := by
  rw [create, run_bind_of_ok (run_get _), present, if_pos rfl]
  exact run_bind_of_ok (Job.run_note ..)

theorem create_of_removed {path : Path} {next : FileSystem}
    (present : session.disk.pathExists path = true)
    (removed : removeTree path session.disk = .ok () next) :
    create path session = make path ⟨next, session.log ++ [.removingStale path]⟩ := by
  have called : Job.call (removeTree path) ⟨session.disk, session.log ++ [.removingStale path]⟩ =
      .ok () ⟨next, session.log ++ [.removingStale path]⟩ :=
    Job.call_of_ok removed
  exact (create_of_present present).trans (run_bind_of_ok called)

theorem create_of_kept {path : Path} {cause : Fault} {next : FileSystem}
    (present : session.disk.pathExists path = true)
    (kept : removeTree path session.disk = .error cause next) :
    create path session =
      .error (.io cause) ⟨next, session.log ++ [.removingStale path]⟩ := by
  have called : Job.call (removeTree path) ⟨session.disk, session.log ++ [.removingStale path]⟩ =
      .error (.io cause) ⟨next, session.log ++ [.removingStale path]⟩ :=
    Job.call_of_error kept
  exact (create_of_present present).trans (run_bind_of_error called)

theorem create_of_refuses (nonempty : path.bytes ≠ []) (refuses : session.disk.Refuses path) :
    create path session = .error (.io (refusalOf path)) session := by
  rw [create_of_absent (pathExists_of_refuses refuses)]
  exact make_of_refused (makeDirectories_of_refuses nonempty refuses)

/-- Why no staging directory can be made at a path to a name in a directory. -/
inductive Obstructs (disk : FileSystem) (path : Path) (above : Location) (name : Name) :
    Fault → Prop
  /-- The system does not take the path. -/
  | refused (inadmissible : ¬ Admissible path name) (refuses : disk.Refuses path) :
      Obstructs disk path above name (refusalOf path)
  /-- What is no directory and no link can not be removed as a tree. -/
  | leaf {node : Node} (admissible : Admissible path name)
      (found : disk.node? (above ++ [name]) = some node) (noDirectory : node ≠ .directory)
      (noLink : ∀ target, node ≠ .link target) :
      Obstructs disk path above name (.refused .notDirectory)
  /-- A link that leads nowhere is not taken for a leftover. -/
  | dangling {target : Path} (admissible : Admissible path name)
      (found : disk.node? (above ++ [name]) = some (.link target))
      (absent : disk.pathExists path = false) :
      Obstructs disk path above name (.refused .alreadyExists)

theorem Obstructs.cause {disk : FileSystem} {cause : Fault}
    (obstructs : Obstructs disk path above name cause) :
    disk.Refuses path ∨ ∃ node, disk.node? (above ++ [name]) = some node ∧ node ≠ .directory := by
  cases obstructs with
  | refused inadmissible refuses =>
      exact .inl refuses
  | leaf admissible found noDirectory noLink =>
      exact .inr ⟨_, found, noDirectory⟩
  | dangling admissible found absent =>
      exact .inr ⟨_, found, by simp⟩

/--
A staging directory is made in the place of whatever was there.  Otherwise something is in the way
and nothing has changed.
-/
theorem create_cases (grounded : Grounded session.disk base above name)
    (longer : Extends path base [name]) :
    (Admissible path name ∧
        (∀ node, session.disk.node? (above ++ [name]) = some node →
          (node = .directory ∨ ∃ target, node = .link target) ∧
            session.disk.pathExists path = true) ∧
        ∃ log, create path session = .ok ⟨path⟩ ⟨vacated session.disk (above ++ [name]), log⟩) ∨
      ∃ cause log, Obstructs session.disk path above name cause ∧
        create path session = .error (.io cause) ⟨session.disk, log⟩ := by
  have arrives := grounded.arrives_here grounded.solid longer
  rcases arrives.cases with reaches | ⟨inadmissible, refuses⟩
  · have admissible := reaches.admissible
    cases found : session.disk.node? (above ++ [name]) with
    | none =>
        left
        rw [create_of_absent (pathExists_of_vacant arrives found), vacated,
          grounded.wellFormed.cut_of_vacant found]
        exact ⟨admissible, by simp, make_of_made (makeDirectories_of_vacant reaches found)⟩
    | some node =>
        have occupied : session.disk.node? (above ++ [name]) ≠ none := by simp [found]
        cases present : session.disk.pathExists path with
        | false =>
            have isLink : ∃ target, node = .link target := by
              apply Classical.byContradiction
              intro noLink
              have means := locate_eq_ok_iff.mpr (reaches.resolve_occupied .target found
                (.inr fun target link => noLink ⟨target, link⟩))
              simp [pathExists, means] at present
            rcases isLink with ⟨target, rfl⟩
            rw [create_of_absent present]
            exact .inr ⟨_, _, .dangling admissible found present,
              make_of_refused (makeDirectories_of_absent reaches occupied present)⟩
        | true =>
            have reachesEmpty : session.disk.node? (above ++ [name]) = some .directory →
                (session.disk.clear (above ++ [name])).Reaches path above name :=
              fun directory => ((grounded.clear directory).arrives_here grounded.solid
                longer).reaches admissible
            rcases removeTree_cases reaches reachesEmpty found with
              ⟨kind, removed⟩ | ⟨noDirectory, noLink, kept⟩
            · left
              have cleared := (grounded.cut.arrives_here grounded.solid longer).reaches admissible
              rcases grounded.toSite.cut with ⟨-, -, gone⟩
              rw [create_of_removed present removed]
              refine ⟨admissible, ?_, make_of_made (makeDirectories_of_vacant cleared gone)⟩
              rintro _ ⟨⟩
              exact ⟨kind, rfl⟩
            · right
              exact ⟨_, _, .leaf admissible found noDirectory noLink, create_of_kept present kept⟩
  · exact .inr ⟨_, _, .refused inadmissible refuses, create_of_refuses longer.nonempty refuses⟩

/-! ## Laying out a bundle -/

variable {disk : FileSystem}

/-- Why a bundle can not be laid out in an empty staging directory. -/
inductive Spoils (disk : FileSystem) (path : Path) (top : Location) (source : Path) : Fault → Prop
  /-- There is no file that can be read, now that the staging directory is there. -/
  | unread {cause : Fault} (admissible : Admissible (path.join ⟨binName⟩) binName)
      (unread : (furnished disk top).Unread source cause) :
      Spoils disk path top source cause
  /-- The longest path in the staging directory is too long, and nothing else has failed before. -/
  | tooLong (refused : ¬ Admissible (descriptorPath ⟨path⟩) descriptorName)
      (reads : Admissible (path.join ⟨binName⟩) binName →
        ∃ id, (furnished disk top).openToRead source = .ok (.file id)) :
      Spoils disk path top source (.refused .nameTooLong)

/-- The executable is copied, or the staging directory is as it was or has a new directory only. -/
theorem copyExecutable_cases (grounded : Grounded disk base above name) (isName : IsName name)
    (longer : Extends path base [name]) (source : Path) :
    ((furnished disk (above ++ [name])).Reaches (executablePath ⟨path⟩)
          (above ++ [name] ++ [binName]) executableName ∧
        ∃ id file,
          (furnished disk (above ++ [name])).openToRead source = .ok (.file id) ∧
          disk.file? id = some file ∧
          copyFile source (executablePath ⟨path⟩) (vacated disk (above ++ [name])) =
            .ok file.content.bytes.length
              (supplied disk (above ++ [name]) (written file.mode file.content))) ∨
      ∃ cause next,
        copyFile source (executablePath ⟨path⟩) (vacated disk (above ++ [name])) =
          .error cause next ∧
        (next = vacated disk (above ++ [name]) ∨ next = furnished disk (above ++ [name])) ∧
        (Admissible (path.join ⟨binName⟩) binName ∧
            (furnished disk (above ++ [name])).Unread source cause ∨
          ¬ Admissible (path.join ⟨binName⟩) binName ∧ cause = refusalOf (path.join ⟨binName⟩) ∨
          (∃ id, (furnished disk (above ++ [name])).openToRead source = .ok (.file id)) ∧
            ¬ Admissible (executablePath ⟨path⟩) executableName ∧
              cause = refusalOf (executablePath ⟨path⟩)) := by
  have staged := staged_vacated grounded.toSite isName
  have furnishing := staged_furnished grounded.toSite isName
  have vacant : (vacated disk (above ++ [name])).node? (above ++ [name] ++ [binName]) = none := by
    simp [node?_vacated]
  have bin : (furnished disk (above ++ [name])).node? (above ++ [name] ++ [binName]) =
      some .directory := by
    simp [node?_furnished]
  have arrivesAbove := (grounded.staged staged).arrives_inside staged.stands isSegment_binName
    (extends_binPath longer)
  have arrives := (grounded.staged furnishing).arrives (List.append_assoc above [name] [binName])
    bin isSegment_executableName (extends_executablePath longer)
  exact copyFile_cases staged.wellFormed staged.stands vacant
    (parent?_executablePath longer.nonempty) (extends_binPath longer).nonempty arrivesAbove
    (fun _ => arrives) source

/-- The executable is copied, or the staging directory is in an earlier state still. -/
theorem addExecutable_cases (grounded : Grounded disk base above name) (isName : IsName name)
    (longer : Extends path base [name]) (admissible : Admissible path name) (source : Path)
    (log : List Event) :
    ((furnished disk (above ++ [name])).Reaches (executablePath ⟨path⟩)
          (above ++ [name] ++ [binName]) executableName ∧
        ∃ id file later,
          (furnished disk (above ++ [name])).openToRead source = .ok (.file id) ∧
          disk.file? id = some file ∧
          addExecutable ⟨path⟩ source ⟨vacated disk (above ++ [name]), log⟩ =
            .ok (executablePath ⟨path⟩)
              ⟨supplied disk (above ++ [name]) (written file.mode file.content), later⟩) ∨
      ∃ cause next,
        addExecutable ⟨path⟩ source ⟨vacated disk (above ++ [name]), log⟩ =
          .error (.io cause) next ∧
        Staged disk (above ++ [name]) next.disk ∧
        Spoils disk path (above ++ [name]) source cause := by
  rw [addExecutable]
  rcases copyExecutable_cases grounded isName longer source with
    ⟨reached, id, file, reads, content, copied⟩ | ⟨cause, next, failed, state, reason⟩
  · left
    exact ⟨reached, id, file, _, reads, content, run_bind_of_ok (Job.call_of_ok copied)⟩
  · right
    refine ⟨_, _, run_bind_of_error (Job.call_of_error failed), ?_, ?_⟩
    · rcases state with rfl | rfl
      · exact staged_vacated grounded.toSite isName
      · exact staged_furnished grounded.toSite isName
    · rcases reason with ⟨fits, unread⟩ | ⟨refused, same⟩ | ⟨reads, refused, same⟩
      · exact .unread fits unread
      · rcases tooLong_of_refused admissible longer (isAbsolute_of_isSegment isSegment_binName)
          (by decide) (by decide) (by decide) refused with ⟨long, last⟩
        rw [same, long]
        exact .tooLong last fun fits => absurd fits refused
      · rcases tooLong_of_refused admissible longer (by decide) (by decide) (by decide) (by decide)
          refused with ⟨long, last⟩
        rw [same, executablePath, Path.ofString, long]
        exact .tooLong last fun _ => reads

/-- The descriptor is written, or the staging directory is in an earlier state still. -/
theorem addDescriptor_cases (grounded : Grounded disk base above name) (isName : IsName name)
    (longer : Extends path base [name]) (admissible : Admissible path name) (executable : File)
    (descriptor : Descriptor) (log : List Event) :
    ((supplied disk (above ++ [name]) executable).Reaches (descriptorPath ⟨path⟩)
          (above ++ [name]) descriptorName ∧
        ∃ later,
          addDescriptor ⟨path⟩ descriptor ⟨supplied disk (above ++ [name]) executable, log⟩ =
            .ok (descriptorPath ⟨path⟩)
              ⟨laidOut disk (above ++ [name]) executable
                (written freshMode (.plain (Utf8.ofString descriptor.render))), later⟩) ∨
      ∃ next,
        addDescriptor ⟨path⟩ descriptor ⟨supplied disk (above ++ [name]) executable, log⟩ =
          .error (.io (.refused .nameTooLong)) next ∧
        Staged disk (above ++ [name]) next.disk ∧
        ¬ Admissible (descriptorPath ⟨path⟩) descriptorName := by
  have staged := staged_supplied grounded.toSite isName executable
  have other : binName ≠ descriptorName := by decide
  have vacant : (supplied disk (above ++ [name]) executable).node?
      (above ++ [name] ++ [descriptorName]) = none := by
    simp [node?_supplied, node?_furnished, node?_vacated, other]
  have arrives := (grounded.staged staged).arrives_inside staged.stands isSegment_descriptorName
    (extends_descriptorPath longer)
  rw [addDescriptor_eq]
  rcases writeFile_cases vacant arrives (.plain (Utf8.ofString descriptor.render)) with
    ⟨reached, wrote⟩ | ⟨refused, failed⟩
  · left
    exact ⟨reached, _, run_bind_of_ok (Job.call_of_ok wrote)⟩
  · right
    rcases tooLong_of_refused admissible longer (isAbsolute_of_isSegment isSegment_descriptorName)
      (by decide) Nat.le.refl (by decide) refused with ⟨long, -⟩
    rw [← long]
    exact ⟨_, run_bind_of_error (Job.call_of_error failed), staged, refused⟩

/-! ## Taking a staging directory away -/

theorem remove_of_removed {path : Path} {state next : FileSystem}
    (removed : removeTree path state = .ok () next) (log : List Event) :
    remove ⟨path⟩ ⟨state, log⟩ = .ok () ⟨next, log ++ [.removedStaging path]⟩ := by
  have called : Job.call (removeTree path) ⟨state, log⟩ = .ok () ⟨next, log⟩ :=
    Job.call_of_ok removed
  exact run_bind_of_ok called

/-- A staging directory that stands is removed after a failure. -/
theorem abandon_of_stands {state : FileSystem} (grounded : Grounded state base above name)
    (longer : Extends path base [name]) (admissible : Admissible path name)
    (stands : state.node? (above ++ [name]) = some .directory) (log : List Event) :
    abandon ⟨path⟩ ⟨state, log⟩ = .ok () ⟨state.cut (above ++ [name]), log⟩ :=
  Job.attempt_of_ok (grounded.removeTree_eq longer admissible stands)

end StagingDirectory

namespace Bundle

open StagingDirectory

variable {session : Session} {disk : FileSystem} {base path : Path} {above : Location} {name : Name}
  {archive : Path} {version : String}

/-! ## What is laid out -/

/-- The descriptor's file in the staging directory for a version. -/
def descriptorFile (version : String) : File :=
  written freshMode (.plain (Utf8.ofString (Descriptor.forExecutable version).render))

theorem isReadable_descriptorFile (version : String) :
    (descriptorFile version).isReadable = true :=
  isReadable_written ⟨freshMode, .plain []⟩ _

/-- A file system with everything laid out for the archive of an executable. -/
def prepared (disk : FileSystem) (top : Location) (file : File) (version : String) : FileSystem :=
  laidOut disk top (written file.mode file.content) (descriptorFile version)

theorem staged_prepared (site : Site disk above name) (isName : IsName name) (file : File)
    (version : String) :
    Staged disk (above ++ [name]) (prepared disk (above ++ [name]) file version) :=
  staged_laidOut site isName _ _

/-! ## Making a bundle -/

/-- Whether a path means a regular file. -/
def MeansFile (disk : FileSystem) (path : Path) : Prop :=
  ∃ place id, disk.locate path = .ok place ∧ disk.nodeAt? place = some (.file id)

/-- Why an executable is refused. -/
inductive Unfit (disk : FileSystem) (path : Path) : Error → Prop
  | missing {cause : Fault} (lost : disk.locate path = .error cause) :
      Unfit disk path (.executableNotFound path cause)
  | irregular {place : Place} (found : disk.locate path = .ok place)
      (noFile : ∀ id, disk.nodeAt? place ≠ some (.file id)) :
      Unfit disk path (.notAFile path)

theorem Unfit.not_meansFile {fault : Error} (unfit : Unfit disk path fault) :
    ¬ MeansFile disk path := by
  rintro ⟨place, id, means, stands⟩
  cases unfit with
  | missing lost =>
      rw [lost] at means
      cases means
  | irregular found noFile =>
      rw [found] at means
      cases means
      exact noFile id stands

theorem checkExecutable_cases (session : Session) (executable : Path) :
    (MeansFile session.disk executable ∧ checkExecutable executable session = .ok () session) ∨
      ∃ fault, Unfit session.disk executable fault ∧
        checkExecutable executable session = .error fault session := by
  rw [checkExecutable]
  split
  · next cause lost =>
    exact .inr ⟨_, .missing lost, rfl⟩
  · next place found =>
    split
    · next id stands =>
      exact .inl ⟨⟨place, id, found, stands⟩, rfl⟩
    · next noFile =>
      exact .inr ⟨_, .irregular found noFile, rfl⟩

/-- A bundle is laid out and archived, or the staging directory is in one of its states still. -/
theorem assemble_cases (grounded : Grounded disk base above name) (isName : IsName name)
    (longer : Extends path base [name]) (admissible : Admissible path name)
    (executable archive : Path) (log : List Event) :
    (∃ cause next,
        assemble ⟨path⟩ executable archive version ⟨vacated disk (above ++ [name]), log⟩ =
          .error (.io cause) next ∧
        Staged disk (above ++ [name]) next.disk ∧
        Spoils disk path (above ++ [name]) executable cause) ∨
      ∃ id file later,
        (furnished disk (above ++ [name])).Reaches (executablePath ⟨path⟩)
          (above ++ [name] ++ [binName]) executableName ∧
        (supplied disk (above ++ [name]) (written file.mode file.content)).Reaches
          (descriptorPath ⟨path⟩) (above ++ [name]) descriptorName ∧
        (furnished disk (above ++ [name])).openToRead executable = .ok (.file id) ∧
        disk.file? id = some file ∧
        assemble ⟨path⟩ executable archive version ⟨vacated disk (above ++ [name]), log⟩ =
          Archive.create path archive ⟨prepared disk (above ++ [name]) file version, later⟩ := by
  rcases addExecutable_cases grounded isName longer admissible executable log with
    ⟨reached, id, file, copied, reads, content, ran⟩ | ⟨cause, next, failed, staged, spoils⟩
  · rcases addDescriptor_cases grounded isName longer admissible (written file.mode file.content)
        (.forExecutable version) copied with
      ⟨reachedLast, wrote, ranLast⟩ | ⟨next, failed, staged, refused⟩
    · right
      refine ⟨id, file, wrote, reached, reachedLast, reads, content, ?_⟩
      rw [assemble, run_bind_of_ok ran, run_bind_of_ok ranLast]
      rfl
    · left
      refine ⟨_, next, ?_, staged, .tooLong refused fun _ => ⟨id, reads⟩⟩
      rw [assemble, run_bind_of_ok ran]
      exact run_bind_of_error failed
  · left
    exact ⟨cause, next, run_bind_of_error failed, staged, spoils⟩

/-! ## Whole runs -/

variable {executable : Path} {staging : StagingDirectory} {made next last : Session}

/-- A run that fails while a bundle is assembled ends when the staging directory is abandoned. -/
theorem create_of_failed {fault : Error}
    (checked : checkExecutable executable session = .ok () session)
    (begun : StagingDirectory.create (stagingPath base version) session = .ok staging made)
    (failed : assemble staging executable (archivePath base version) version made =
      .error fault next)
    (abandoned : staging.abandon next = .ok () last) :
    create base executable version session = .error fault last := by
  rw [create, run_bind_of_ok checked, run_bind_of_ok begun]
  exact run_bind_of_error (Job.orElseDo_of_error failed abandoned)

/-- A run that has assembled a bundle ends when the staging directory is removed. -/
theorem create_of_assembled {entries : List String}
    (checked : checkExecutable executable session = .ok () session)
    (begun : StagingDirectory.create (stagingPath base version) session = .ok staging made)
    (done : assemble staging executable (archivePath base version) version made =
      .ok entries next)
    (removed : staging.remove next = .ok () last) :
    create base executable version session =
      .ok (archivePath base version)
        ⟨last.disk, last.log ++ [.wroteEntries entries.length (archivePath base version)]⟩ := by
  rw [create, run_bind_of_ok checked, run_bind_of_ok begun,
    run_bind_of_ok (Job.orElseDo_of_ok done), run_bind_of_ok removed]
  rfl

end Bundle

end BundlePacker
