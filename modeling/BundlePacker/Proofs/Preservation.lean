import BundlePacker.FileSystem.Preservation
import BundlePacker.Program

/-!
# What runs keep

Whatever a job of this library does, and wherever it fails, it keeps every property of disks that
the calls keep of which it is composed.  The main statement is that a whole run of the program
leaves a well-formed disk where it found one.
-/

namespace BundlePacker

open FileSystem (KeptByMaking KeptByRemoving KeptByWriting)

namespace Session

/-- Whether the disk of a session is well-formed. -/
def WellFormed (session : Session) : Prop :=
  session.disk.WellFormed

/-- Whether the disk of a session has a property. -/
def OnDisk (property : FileSystem → Prop) (session : Session) : Prop :=
  property session.disk

end Session

section Jobs

variable {α : Type} {property : FileSystem → Prop}

namespace Job

theorem keeps_note (event : Event) : Keeps (Session.OnDisk property) (note event) :=
  fun _ holds => holds

theorem keeps_noteAll (events : List Event) : Keeps (Session.OnDisk property) (noteAll events) :=
  fun _ holds => holds

theorem keeps_onDisk (failure : FileSystem.Fault → Error) {work : FileSystem.Call α}
    (work_keeps : Keeps property work) :
    Keeps (Session.OnDisk property) (onDisk failure work) := by
  intro session holds
  have kept := work_keeps session.disk holds
  simp only [stateAfter, onDisk] at kept ⊢
  cases ran : work session.disk <;> simpa [ran, Session.OnDisk] using kept

theorem keeps_ofExcept (result : Except Error α) :
    Keeps (Session.OnDisk property) (ofExcept result) := by
  cases result with
  | ok value => exact Keeps.pure value
  | error fault => exact Keeps.throw fault

theorem keeps_regardless {work : Job Unit} (work_keeps : Keeps (Session.OnDisk property) work) :
    Keeps (Session.OnDisk property) work.regardless := by
  intro session holds
  have kept := work_keeps session holds
  simp only [stateAfter, regardless] at kept ⊢
  cases ran : work session <;> simpa [ran] using kept

theorem keeps_call {work : FileSystem.Call α} (work_keeps : Keeps property work) :
    Keeps (Session.OnDisk property) (call work) :=
  keeps_onDisk _ work_keeps

theorem keeps_attempt (failure : FileSystem.Fault → Event) {work : FileSystem.Call Unit}
    (work_keeps : Keeps property work) :
    Keeps (Session.OnDisk property) (attempt failure work) := by
  intro session holds
  have kept := work_keeps session.disk holds
  simp only [stateAfter, attempt] at kept ⊢
  cases ran : work session.disk <;> simpa [ran, Session.OnDisk] using kept

theorem keeps_orElseDo {work : Job α} {cleanup : Job Unit}
    (work_keeps : Keeps (Session.OnDisk property) work)
    (cleanup_keeps : Keeps (Session.OnDisk property) cleanup) :
    Keeps (Session.OnDisk property) (work.orElseDo cleanup) := by
  intro session holds
  have kept := work_keeps session holds
  simp only [stateAfter, orElseDo] at kept ⊢
  cases ran : work session with
  | ok value next => simpa [ran] using kept
  | error fault next =>
    have cleaned := cleanup_keeps next (by simpa [ran] using kept)
    simp only [stateAfter] at cleaned
    cases last : cleanup next <;> simpa [last] using cleaned

/-- A call that succeeds as a job has succeeded on the disk. -/
theorem ok_of_call {work : FileSystem.Call α} {session next : Session} {value : α}
    (called : call work session = .ok value next) :
    ∃ disk, work session.disk = .ok value disk := by
  simp only [call, onDisk] at called
  split at called
  · next disk ran =>
    cases called
    exact ⟨disk, ran⟩
  · cases called

end Job

theorem Archive.keeps_create {output : Path} (writing : KeptByWriting property output)
    (discarding : Keeps property (FileSystem.removeFile output)) (source : Path) :
    Keeps (Session.OnDisk property) (Archive.create source output) := by
  refine Keeps.bind_of_ok (Job.keeps_call writing.opens) fun session handle next holds opened => ?_
  rcases Job.ok_of_call opened with ⟨disk, ran⟩
  refine Keeps.bind Keeps.get fun session => ?_
  refine Keeps.bind (Job.keeps_noteAll _) fun _ => ?_
  have finished : ∀ entries, Keeps (Session.OnDisk property) (finish handle entries) :=
    fun _ => Job.keeps_onDisk _ (writing.writes _ handle disk holds ran _)
  have discarded : Keeps (Session.OnDisk property) (discard output) :=
    Job.keeps_attempt _ discarding
  split
  · exact Keeps.bind (Job.keeps_orElseDo (finished _) discarded) fun _ => Keeps.pure _
  · exact Keeps.bind (Job.keeps_regardless (finished _)) fun _ =>
      Keeps.bind discarded fun _ => Keeps.throw _

namespace StagingDirectory

variable {path : Path} {staging : StagingDirectory}

/-- What is left to do once whatever stood at the path of a staging directory is gone. -/
def make (path : Path) : Job StagingDirectory := do
  Job.call (FileSystem.makeDirectories path)
  Job.note (.createdStaging path)
  pure ⟨path⟩

/-- A staging directory is made at once, or after whatever stands at its path has been removed. -/
theorem create_eq (path : Path) :
    create path =
      (get >>= fun session =>
        if session.disk.pathExists path then
          Job.note (.removingStale path) >>= fun _ =>
            Job.call (FileSystem.removeTree path) >>= fun _ => make path
        else make path) :=
  rfl

theorem keeps_create (making : KeptByMaking property path)
    (removing : KeptByRemoving property path) :
    Keeps (Session.OnDisk property) (create path) := by
  have made : Keeps (Session.OnDisk property) (make path) :=
    Keeps.bind (Job.keeps_call making.makeDirectories) fun _ =>
      Keeps.bind (Job.keeps_note _) fun _ => Keeps.pure _
  rw [create_eq]
  refine Keeps.bind Keeps.get fun session => ?_
  split
  · exact Keeps.bind (Job.keeps_note _) fun _ =>
      Keeps.bind (Job.keeps_call removing.removeTree) fun _ => made
  · exact made

/-- The staging directory that is made is the one at the path. -/
theorem eq_of_create {session next : Session} (made : create path session = .ok staging next) :
    staging = ⟨path⟩ := by
  have ends : ∀ {before : Session}, make path before = .ok staging next → staging = ⟨path⟩ := by
    intro before ran
    rcases exists_of_run_bind_eq_ok ran with ⟨_, _, -, ran⟩
    rcases exists_of_run_bind_eq_ok ran with ⟨_, _, -, ran⟩
    cases ran
    rfl
  rw [create_eq] at made
  rcases exists_of_run_bind_eq_ok made with ⟨_, _, -, ran⟩
  split at ran
  · rcases exists_of_run_bind_eq_ok ran with ⟨_, _, -, ran⟩
    rcases exists_of_run_bind_eq_ok ran with ⟨_, _, -, ran⟩
    exact ends ran
  · exact ends ran

theorem keeps_addExecutable
    (making : ∀ directory, staging.executablePath.parent? = some directory →
      KeptByMaking property directory)
    (writing : KeptByWriting property staging.executablePath) (source : Path) :
    Keeps (Session.OnDisk property) (staging.addExecutable source) :=
  Keeps.bind (Job.keeps_call (writing.copyFile making source)) fun _ =>
    Keeps.bind (Job.keeps_note _) fun _ => Keeps.pure _

theorem keeps_addDescriptor (writing : KeptByWriting property staging.descriptorPath)
    (descriptor : Descriptor) :
    Keeps (Session.OnDisk property) (staging.addDescriptor descriptor) :=
  Keeps.bind (Job.keeps_ofExcept _) fun _ =>
    Keeps.bind (Job.keeps_call (writing.writeFile _)) fun _ =>
      Keeps.bind (Job.keeps_note _) fun _ => Keeps.pure _

theorem keeps_remove (removing : KeptByRemoving property staging.path) :
    Keeps (Session.OnDisk property) staging.remove :=
  Keeps.bind (Job.keeps_call removing.removeTree) fun _ => Job.keeps_note _

theorem keeps_abandon (removing : KeptByRemoving property staging.path) :
    Keeps (Session.OnDisk property) staging.abandon :=
  Job.keeps_attempt _ removing.removeTree

end StagingDirectory

namespace Bundle

/-- Whether a property is kept by every call with which a bundle is made. -/
structure KeptByCalls (property : FileSystem → Prop) (staging : StagingDirectory)
    (archive : Path) : Prop where
  making : KeptByMaking property staging.path
  removing : KeptByRemoving property staging.path
  furnishing : ∀ directory, staging.executablePath.parent? = some directory →
    KeptByMaking property directory
  copying : KeptByWriting property staging.executablePath
  describing : KeptByWriting property staging.descriptorPath
  archiving : KeptByWriting property archive
  discarding : Keeps property (FileSystem.removeFile archive)

theorem keeps_checkExecutable (path : Path) :
    Keeps (Session.OnDisk property) (checkExecutable path) := by
  intro session holds
  simp only [stateAfter, checkExecutable]
  cases session.disk.locate path with
  | error fault => exact holds
  | ok place =>
    simp only
    generalize session.disk.nodeAt? place = found
    cases found with
    | none => exact holds
    | some node => cases node <;> exact holds

variable {staging : StagingDirectory} {archive : Path}

theorem KeptByCalls.assemble (kept : KeptByCalls property staging archive) (executable : Path)
    (version : String) :
    Keeps (Session.OnDisk property) (assemble staging executable archive version) :=
  Keeps.bind (StagingDirectory.keeps_addExecutable kept.furnishing kept.copying executable) fun _ =>
    Keeps.bind (StagingDirectory.keeps_addDescriptor kept.describing _) fun _ =>
      Archive.keeps_create kept.archiving kept.discarding staging.path

/-- Making a bundle keeps what all of its calls keep. -/
theorem KeptByCalls.create {base : Path} {version : String}
    (kept : KeptByCalls property ⟨stagingPath base version⟩ (archivePath base version))
    (executable : Path) :
    Keeps (Session.OnDisk property) (create base executable version) := by
  refine Keeps.bind (keeps_checkExecutable executable) fun _ => ?_
  refine Keeps.bind_of_ok (StagingDirectory.keeps_create kept.making kept.removing) ?_
  intro session staging next holds made
  have own := StagingDirectory.eq_of_create made
  subst own
  have assembled := Job.keeps_orElseDo (kept.assemble executable version)
    (StagingDirectory.keeps_abandon kept.removing)
  refine Keeps.bind assembled fun _ => ?_
  refine Keeps.bind (StagingDirectory.keeps_remove kept.removing) fun _ => ?_
  exact Keeps.bind (Job.keeps_note _) fun _ => Keeps.pure _

end Bundle

end Jobs

namespace Bundle

theorem wellFormed_keptByCalls (staging : StagingDirectory) (archive : Path) :
    KeptByCalls FileSystem.WellFormed staging archive where
  making := FileSystem.WellFormed.keptByMaking _
  removing := FileSystem.WellFormed.keptByRemoving _
  furnishing directory _ := FileSystem.WellFormed.keptByMaking directory
  copying := FileSystem.WellFormed.keptByWriting _
  describing := FileSystem.WellFormed.keptByWriting _
  archiving := FileSystem.WellFormed.keptByWriting _
  discarding := FileSystem.keeps_removeFile archive

theorem keeps_assemble (staging : StagingDirectory) (executable archive : Path)
    (version : String) :
    Keeps Session.WellFormed (assemble staging executable archive version) :=
  (wellFormed_keptByCalls staging archive).assemble executable version

theorem keeps_create (base executable : Path) (version : String) :
    Keeps Session.WellFormed (create base executable version) :=
  (wellFormed_keptByCalls _ _).create executable

end Bundle

/-- A run of the program leaves a well-formed disk. -/
theorem Program.wellFormed_run {disk : FileSystem} (well_formed : disk.WellFormed)
    (program : String) (arguments : List Bytes) : (run program arguments disk).2.WellFormed := by
  simp only [run]
  split
  · exact well_formed
  · next request _ =>
    simp only [fulfil]
    split
    · exact well_formed
    · next base _ =>
      have kept := Bundle.keeps_create base (.ofString request.executable) request.version
        ⟨disk, []⟩ well_formed
      simp only [stateAfter] at kept
      split <;> next ran => simpa [ran, Session.WellFormed] using kept

end BundlePacker
