import BundlePacker.Proofs.Bundle.Verdict
import BundlePacker.Proofs.FileSystem.Growth

/-!
# Runs from any base directory

A base directory may be given by any path, also by one that is not there yet, or that passes through
the staging directory which is going to be made.  Then it can not be said beforehand what stands in
the staging directory.  But a staging directory that has been made is there until it is removed: no
step in between takes anything away, but for the archive when it is given up.

The main statement lists how far a run can get and what it has told by then.  No cleanup ever fails,
so that the events of a run are those of the steps that have succeeded, and no others.
-/

namespace BundlePacker

open FileSystem

namespace Job

variable {session : Session} {α : Type}

/-- A call on the file system ends as a job does, and tells nothing. -/
theorem call_cases (work : Call α) (session : Session) :
    (∃ value disk, work session.disk = .ok value disk ∧
        call work session = .ok value ⟨disk, session.log⟩) ∨
      ∃ fault disk, work session.disk = .error fault disk ∧
        call work session = .error (.io fault) ⟨disk, session.log⟩ := by
  cases ran : work session.disk with
  | ok value disk => exact .inl ⟨value, disk, rfl, call_of_ok ran⟩
  | error fault disk => exact .inr ⟨fault, disk, rfl, call_of_error ran⟩

end Job

namespace FileSystem

variable {first second : FileSystem} {source destination : Path} {count : Nat}

end FileSystem

/-! ## Making a staging directory -/

namespace StagingDirectory

variable {session : Session} {path : Path}

/-- The event about what an earlier run has left at a path, if anything has been left there. -/
def opening (disk : FileSystem) (path : Path) : List Event :=
  if disk.pathExists path then [.removingStale path] else []

theorem make_cases (wellFormed : session.disk.WellFormed) (nonempty : path.bytes ≠ []) :
    (∃ disk, make path session = .ok ⟨path⟩ ⟨disk, session.log ++ [.createdStaging path]⟩ ∧
        disk.WellFormed ∧ disk.isDirectory path = true) ∨
      ∃ cause disk, make path session = .error (.io cause) ⟨disk, session.log⟩ := by
  rcases Job.call_cases (makeDirectories path) session with
    ⟨_, disk, ran, called⟩ | ⟨cause, disk, -, called⟩
  · have keeps := (WellFormed.keptByMaking path).makeDirectories
    exact .inl ⟨disk, run_bind_of_ok called, keeps.of_ok wellFormed ran,
      isDirectory_of_makeDirectories wellFormed nonempty ran⟩
  · exact .inr ⟨cause, disk, run_bind_of_error called⟩

/-- A staging directory that has been made is there, whatever stood at its path before. -/
theorem create_cases_of_any (wellFormed : session.disk.WellFormed) (nonempty : path.bytes ≠ []) :
    (∃ disk,
        create path session =
          .ok ⟨path⟩ ⟨disk, session.log ++ opening session.disk path ++ [.createdStaging path]⟩ ∧
        disk.WellFormed ∧ disk.isDirectory path = true) ∨
      ∃ cause disk,
        create path session = .error (.io cause)
          ⟨disk, session.log ++ opening session.disk path⟩ := by
  cases present : session.disk.pathExists path with
  | false =>
      rw [create_of_absent present, opening, present]
      simpa using make_cases wellFormed nonempty
  | true =>
      rw [opening, present, if_pos rfl]
      cases ran : removeTree path session.disk with
      | error cause disk =>
          exact .inr ⟨cause, disk, create_of_kept present ran⟩
      | ok _ disk =>
          rw [create_of_removed present ran]
          have keeps := (WellFormed.keptByRemoving path).removeTree
          exact @make_cases ⟨disk, session.log ++ [.removingStale path]⟩ path
            (keeps.of_ok wellFormed ran) nonempty

end StagingDirectory

/-! ## Runs -/

/-- What a run is given: three arguments, and the session in which it begins. -/
structure Run where
  base : Path
  executable : Path
  version : String
  session : Session

namespace Run

open BundlePacker.Bundle BundlePacker.StagingDirectory

variable (run : Run)

/-- The staging directory of a run. -/
def staging : StagingDirectory :=
  ⟨stagingPath run.base run.version⟩

/-- Where the archive of a run is made. -/
def archive : Path :=
  archivePath run.base run.version

/-- What is written to the file of the descriptor. -/
def description : Content :=
  .plain (Utf8.ofString (Descriptor.forExecutable run.version).render)

/-- The session in which a run ends. -/
def last : Session :=
  stateAfter (Bundle.create run.base run.executable run.version) run.session

/-- What a run answers. -/
def answer : Except Error Path :=
  Bundle.answer (Bundle.create run.base run.executable run.version) run.session

/-! ### The moments of a run -/

/-- The disk once the staging directory has been made. -/
def made : FileSystem :=
  (stateAfter (StagingDirectory.create run.staging.path) run.session).disk

/-- The disk once the copy of the executable has been opened. -/
def copying : FileSystem :=
  stateAfter (openToWrite run.staging.executablePath)
    (stateAfter (prepareFor run.staging.executablePath) run.made)

/-- The disk once the executable has been copied. -/
def copied : FileSystem :=
  stateAfter (copyFile run.executable run.staging.executablePath) run.made

/-- The disk once the descriptor has been written as well. -/
def laid : FileSystem :=
  stateAfter (writeFile run.staging.descriptorPath run.description) run.copied

/-- The disk once the archive has been opened. -/
def archiving : FileSystem :=
  stateAfter (openToWrite run.archive) run.laid

/-- What is gathered for the archive, once it has been opened. -/
def gathered : Archive.Gathered :=
  match openToWrite run.archive run.laid with
  | .ok handle opened => Archive.gatherTree opened handle run.staging.path
  | .error _ _ => ⟨[], [], none⟩

variable {run}

theorem gathered_eq {handle : Handle}
    (opens : openToWrite run.archive run.laid = .ok handle run.archiving) :
    run.gathered = Archive.gatherTree run.archiving handle run.staging.path := by
  rw [gathered, opens]

/-! ### How far a run has got -/

/-- Whether a run has made its staging directory. -/
structure Begins (run : Run) : Prop where
  meansFile : MeansFile run.session.disk run.executable
  begun : ∃ log,
    StagingDirectory.create run.staging.path run.session = .ok run.staging ⟨run.made, log⟩
  wellFormed : run.made.WellFormed
  isDirectory : run.made.isDirectory run.staging.path = true

/-- Whether a run has copied its executable, with so many bytes. -/
structure Copies (run : Run) (count : Nat) : Prop extends Begins run where
  ran : copyFile run.executable run.staging.executablePath run.made = .ok count run.copied

/-- Whether a run has laid out its bundle. -/
structure LaysOut (run : Run) (count : Nat) : Prop extends Copies run count where
  wrote : writeFile run.staging.descriptorPath run.description run.copied = .ok () run.laid

/-- Whether a run has opened its archive. -/
structure Archives (run : Run) (count : Nat) : Prop extends LaysOut run count where
  opened : ∃ handle, openToWrite run.archive run.laid = .ok handle run.archiving

theorem Copies.grows {count : Nat} (copies : run.Copies count) : Grows run.made run.copied :=
  ((Grows.keptByWriting run.made run.staging.executablePath).copyFile
    (fun directory _ => Grows.keptByMaking run.made directory) run.executable).of_ok
    (grows_refl copies.wellFormed) copies.ran

theorem LaysOut.grows {count : Nat} (laysOut : run.LaysOut count) : Grows run.made run.laid :=
  ((Grows.keptByWriting run.made run.staging.descriptorPath).writeFile run.description).of_ok
    laysOut.toCopies.grows laysOut.wrote

/-- What a run has told when its staging directory has been made. -/
def beginning (run : Run) : List Event :=
  opening run.session.disk run.staging.path ++ [.createdStaging run.staging.path]

/-- What a run tells while it lays out its bundle. -/
def layingOut (run : Run) (count : Nat) : List Event :=
  [.copied run.executable count run.staging.executablePath, .wrote run.staging.descriptorPath]

/-- What a run tells when its archive is done. -/
def finishing (run : Run) : List Event :=
  [.removedStaging run.staging.path, .wroteEntries run.gathered.entries.length run.archive]

/-- How far a run gets, with what it tells until then and what it answers. -/
inductive Tells (run : Run) : List Event → Except Error Path → Prop
  /-- There is no executable. -/
  | unfit {fault : Error} (unfit : Unfit run.session.disk run.executable fault) :
      Tells run [] (.error fault)
  /-- No staging directory can be made. -/
  | unmade {cause : Fault} (meansFile : MeansFile run.session.disk run.executable) :
      Tells run (opening run.session.disk run.staging.path) (.error (.io cause))
  /-- The executable can not be copied. -/
  | uncopied {cause : Fault} (begins : run.Begins) :
      Tells run run.beginning (.error (.io cause))
  /-- The descriptor can not be written. -/
  | undescribed {count : Nat} {cause : Fault} (copies : run.Copies count) :
      Tells run (run.beginning ++ [.copied run.executable count run.staging.executablePath])
        (.error (.io cause))
  /-- The archive can not be opened. -/
  | unopened {count : Nat} {cause : Fault} (laysOut : run.LaysOut count) :
      Tells run (run.beginning ++ run.layingOut count) (.error (.io cause))
  /-- Something in the staging directory can not be archived. -/
  | incomplete {count : Nat} {fault : Error} (archives : run.Archives count)
      (failed : run.gathered.failure = some fault) :
      Tells run (run.beginning ++ (run.layingOut count ++ run.gathered.events)) (.error fault)
  /-- The archive is done. -/
  | complete {count : Nat} {handle : Handle} (archives : run.Archives count)
      (complete : run.gathered.failure = none)
      (opens : openToWrite run.archive run.laid = .ok handle run.archiving)
      (removed : removeTree run.staging.path
          (stateAfter (write handle (.archive run.gathered.entries)) run.archiving) =
        .ok () run.last.disk) :
      Tells run (run.beginning ++ (run.layingOut count ++ run.gathered.events) ++ run.finishing)
        (.ok run.archive)

/-! ### How runs end -/

theorem endsInName_staging (noSlash : '/' ∉ run.version.toList) :
    EndsInName run.staging.path (Utf8.ofString (stagingName run.version)) :=
  endsInName_join run.base (isSegment_stagingName noSlash)

theorem endsInName_archive (noSlash : '/' ∉ run.version.toList) :
    EndsInName run.archive (Utf8.ofString (archiveName run.version)) :=
  endsInName_join run.base (isSegment_archiveName noSlash)

theorem grows_written {opened : FileSystem} (wellFormed : opened.WellFormed) (handle : Handle)
    (content : Content) : Grows opened (stateAfter (write handle content) opened) :=
  Grows.keeps_write opened handle content opened (grows_refl wellFormed)

/--
Laying out a bundle and archiving it succeeds, or it fails at one of its steps.  Then it has told of
the steps before, and the staging directory is there still.
-/
theorem assemble_cases (begins : run.Begins) (noSlash : '/' ∉ run.version.toList)
    (log : List Event) :
    (∃ told fault disk,
        assemble run.staging run.executable run.archive run.version ⟨run.made, log⟩ =
          .error fault ⟨disk, log ++ told⟩ ∧
        disk.isDirectory run.staging.path = true ∧
        run.Tells (run.beginning ++ told) (.error fault)) ∨
      ∃ count handle, run.Archives count ∧ run.gathered.failure = none ∧
        openToWrite run.archive run.laid = .ok handle run.archiving ∧
        (stateAfter (write handle (.archive run.gathered.entries)) run.archiving).isDirectory
          run.staging.path = true ∧
        assemble run.staging run.executable run.archive run.version ⟨run.made, log⟩ =
          .ok (run.gathered.entries.map (·.name))
            ⟨stateAfter (write handle (.archive run.gathered.entries)) run.archiving,
              log ++ (run.layingOut count ++ run.gathered.events)⟩ := by
  have copyingKeeps : Grows run.made run.copied :=
    (Grows.keptByWriting run.made run.staging.executablePath).copyFile
      (fun directory _ => Grows.keptByMaking run.made directory) run.executable run.made
      (grows_refl begins.wellFormed)
  have writingKeeps : Grows run.made run.laid :=
    (Grows.keptByWriting run.made run.staging.descriptorPath).writeFile run.description run.copied
      copyingKeeps
  rcases Job.call_cases (copyFile run.executable run.staging.executablePath) ⟨run.made, log⟩ with
    ⟨count, disk, ran, called⟩ | ⟨cause, disk, ran, called⟩
  case inr =>
    have same : run.copied = disk := by rw [Run.copied, stateAfter, ran]
    refine .inl ⟨[], .io cause, disk, ?_, same ▸ copyingKeeps.2.isDirectory begins.isDirectory, ?_⟩
    · rw [List.append_nil]
      exact run_bind_of_error (run_bind_of_error called)
    · rw [List.append_nil]
      exact .uncopied begins
  have same : run.copied = disk := by rw [Run.copied, stateAfter, ran]
  subst same
  have copies : run.Copies count := ⟨begins, ran⟩
  have added : run.staging.addExecutable run.executable ⟨run.made, log⟩ =
      .ok run.staging.executablePath
        ⟨run.copied, log ++ [.copied run.executable count run.staging.executablePath]⟩ :=
    run_bind_of_ok called
  rcases Job.call_cases (writeFile run.staging.descriptorPath run.description)
      ⟨run.copied, log ++ [.copied run.executable count run.staging.executablePath]⟩ with
    ⟨_, disk, ran, called⟩ | ⟨cause, disk, ran, called⟩
  case inr =>
    have same : run.laid = disk := by rw [Run.laid, stateAfter, ran]
    refine .inl ⟨_, .io cause, disk, ?_, same ▸ writingKeeps.2.isDirectory begins.isDirectory,
      .undescribed copies⟩
    rw [assemble, run_bind_of_ok added, addDescriptor_eq]
    exact run_bind_of_error (run_bind_of_error called)
  have same : run.laid = disk := by rw [Run.laid, stateAfter, ran]
  subst same
  have laysOut : run.LaysOut count := ⟨copies, ran⟩
  have described : run.staging.addDescriptor (.forExecutable run.version)
      ⟨run.copied, log ++ [.copied run.executable count run.staging.executablePath]⟩ =
      .ok run.staging.descriptorPath ⟨run.laid, log ++ run.layingOut count⟩ := by
    have later : log ++ run.layingOut count =
        log ++ [.copied run.executable count run.staging.executablePath] ++
          [.wrote run.staging.descriptorPath] := by
      rw [layingOut, List.append_assoc]
      rfl
    rw [later, addDescriptor_eq]
    exact run_bind_of_ok called
  have assembled : assemble run.staging run.executable run.archive run.version ⟨run.made, log⟩ =
      Archive.create run.staging.path run.archive ⟨run.laid, log ++ run.layingOut count⟩ := by
    rw [assemble, run_bind_of_ok added, run_bind_of_ok described]
  have directory := writingKeeps.2.isDirectory begins.isDirectory
  cases opens : openToWrite run.archive run.laid with
  | error cause disk =>
      have refused := opens_openToWrite run.laid run.archive
      rw [opens] at refused
      cases refused
      exact .inl ⟨_, _, _, assembled.trans (Archive.create_of_refused opens), directory,
        .unopened laysOut⟩
  | ok handle opened =>
      have same : run.archiving = opened := by rw [archiving, stateAfter, opens]
      subst same
      have archives : run.Archives count := ⟨laysOut, handle, opens⟩
      have grows := grows_written ((opens_of_ok opens).wellFormed writingKeeps.1) handle
        (.archive run.gathered.entries)
      have created := @Archive.create_eq_of_opened ⟨run.laid, log ++ run.layingOut count⟩ _
        run.staging.path _ _ opens
      rw [Archive.archived, ← gathered_eq opens] at created
      cases complete : run.gathered.failure with
      | none =>
          right
          have still := ((opens_of_ok opens).grown writingKeeps.1).trans grows.2
          refine ⟨count, handle, archives, rfl, rfl, still.isDirectory directory, ?_⟩
          rw [assembled, created, complete, List.append_assoc]
          rfl
      | some fault =>
          left
          rcases removeFile_of_opens writingKeeps.1 (endsInName_archive noSlash) (opens_of_ok opens)
            grows directory with ⟨disk, removed, still⟩
          refine ⟨_, fault, disk, ?_, still, .incomplete archives complete⟩
          rw [assembled, created, complete, List.append_assoc]
          exact run_bind_of_ok (Job.attempt_of_ok removed)

/-- Every run gets as far as it gets, and tells of what it has done. -/
theorem exists_tells (run : Run) (wellFormed : run.session.disk.WellFormed)
    (noSlash : '/' ∉ run.version.toList) :
    ∃ told, run.last.log = run.session.log ++ told ∧ run.Tells told run.answer := by
  have ended : ∀ (fault : Error) (disk : FileSystem) (told : List Event),
      Bundle.create run.base run.executable run.version run.session =
        .error fault ⟨disk, run.session.log ++ told⟩ →
      run.Tells told (.error fault) →
      ∃ told, run.last.log = run.session.log ++ told ∧ run.Tells told run.answer := by
    intro fault disk told failed tells
    rw [last, stateAfter, answer, Bundle.answer, failed]
    exact ⟨told, rfl, tells⟩
  have endsInName := run.endsInName_staging noSlash
  rcases checkExecutable_cases run.session run.executable with
    ⟨meansFile, checked⟩ | ⟨fault, unfit, failed⟩
  case inr =>
    refine ended fault run.session.disk [] ?_ (.unfit unfit)
    rw [List.append_nil]
    exact run_bind_of_error failed
  rcases StagingDirectory.create_cases_of_any wellFormed endsInName.nonempty with
    ⟨disk, begun, wellFormedMade, isDirectory⟩ | ⟨cause, disk, failed⟩
  case inr =>
    refine ended (.io cause) disk _ ?_ (.unmade meansFile)
    rw [Bundle.create, run_bind_of_ok checked]
    exact run_bind_of_error failed
  have same : run.made = disk := by rw [made, stateAfter, begun]
  subst same
  have begins : run.Begins := ⟨meansFile, ⟨_, begun⟩, wellFormedMade, isDirectory⟩
  rw [List.append_assoc] at begun
  rcases assemble_cases begins noSlash (run.session.log ++ run.beginning) with
    ⟨told, fault, disk, failed, still, tells⟩ |
      ⟨count, handle, archives, complete, opens, still, done⟩
  · rcases exists_removeTree endsInName still with ⟨next, removed⟩
    refine ended fault next _ ?_ tells
    rw [List.append_assoc] at failed
    exact create_of_failed checked begun failed (Job.attempt_of_ok removed)
  · rcases exists_removeTree endsInName still with ⟨next, removed⟩
    have finished := create_of_assembled checked begun done (remove_of_removed removed _)
    have same : run.last.disk = next := by rw [last, stateAfter, finished]
    subst same
    have answered : run.answer = .ok run.archive := by
      rw [answer, Bundle.answer, finished]
      rfl
    refine ⟨run.beginning ++ (run.layingOut count ++ run.gathered.events) ++ run.finishing, ?_, ?_⟩
    · rw [last, stateAfter, finished]
      simp [finishing, archive]
    · rw [answered]
      exact .complete archives complete opens removed

/-- Where the base directory lies elsewhere the staging directory is made anew in it. -/
theorem Begins.made_eq {above : Location} (begins : run.Begins)
    (grounded : Grounded run.session.disk run.base above
      (Utf8.ofString (stagingName run.version))) :
    Admissible run.staging.path (Utf8.ofString (stagingName run.version)) ∧
      run.made = vacated run.session.disk (stagingLocation above run.version) := by
  rcases begins.begun with ⟨log, begun⟩
  have longer : Extends run.staging.path run.base [Utf8.ofString (stagingName run.version)] :=
    extends_stagingPath grounded
  rcases StagingDirectory.create_cases grounded longer with
    ⟨admissible, -, later, made⟩ | ⟨cause, later, -, failed⟩
  · exact ⟨admissible,
      congrArg Session.disk (EStateM.Result.ok.inj (begun.symm.trans made)).2⟩
  · cases begun.symm.trans failed

/-! ### Runs on a small file system -/

/-- Runs in the root directory. -/
def inSample (version : String) : Run :=
  ⟨pathOf [], .ofString "/sur", version, ⟨sample, []⟩⟩

set_option maxRecDepth 8000 in
/-- A directory is in the way of the next version's archive. -/
theorem exists_error_inSample : ∃ fault, (inSample "1").answer = .error fault := by
  have failed : leavesArchive (Bundle.create (pathOf []) (.ofString "/sur") "1" ⟨sample, []⟩) =
      none := by
    simp only [Bundle.create, assemble, addDescriptor_eq]
    generalize Utf8.ofString (Descriptor.forExecutable "1").render = bytes
    cases bytes <;> cbv
  rcases exists_of_leavesArchive_none failed with ⟨fault, last, ran⟩
  exact ⟨fault, answer_eq_error_iff.mpr ⟨last, ran⟩⟩

end Run

end BundlePacker
