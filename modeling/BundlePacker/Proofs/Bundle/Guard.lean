import Mathlib
import BundlePacker.Proofs.Bundle.Inside

/-!
# Staging directories in use

A staging directory can be asked for any number of tasks in any order, of which some fail.  A use of
it is the list of the tasks that have been done so far, together with what has become of the file
system.  One task keeps a use sound, and so do all of them.

The main statement says what a staging directory holds at any time between its making and its end:
the copy that has been made last and the descriptor that has been written last, and nothing else.
However it is taken away then, the file system is what it was before it was made.
-/

namespace BundlePacker

open FileSystem

namespace StagingDirectory

variable {disk state : FileSystem} {path : Path} {above top : Location} {name : Name}
  {copied described : Option File}

/-! ## Tasks -/

/-- What can be asked of a staging directory. -/
inductive Task where
  /-- To take in a copy of an executable. -/
  | executable (source : Path)
  /-- To take in a descriptor. -/
  | descriptor (descriptor : Descriptor)

namespace Task

/-- The path of the executable that a task is about. -/
def source? : Task → Option Path
  | .executable source => some source
  | .descriptor _ => none

/-- The descriptor that a task is about. -/
def descriptor? : Task → Option Descriptor
  | .executable _ => none
  | .descriptor asked => some asked

end Task

/-- Do a task. -/
def perform (staging : StagingDirectory) : Task → Job Path
  | .executable source => staging.addExecutable source
  | .descriptor descriptor => staging.addDescriptor descriptor

/-- A staging directory in use: the tasks that have been done, the last one first. -/
structure Use where
  done : List Task
  session : Session

/-- Turn to the next task.  If it fails it has not been done, and the use goes on. -/
def Use.next (staging : StagingDirectory) (use : Use) (task : Task) : Use :=
  match staging.perform task use.session with
  | .ok _ session => ⟨task :: use.done, session⟩
  | .error _ session => ⟨use.done, session⟩

/-- Turn to tasks one after the other. -/
def performAll (staging : StagingDirectory) (session : Session) (tasks : List Task) : Use :=
  tasks.foldl (Use.next staging) ⟨[], session⟩

/-- Whether a task does not need what stands at a location. -/
def Task.PassesBy (disk : FileSystem) (top : Location) (task : Task) : Prop :=
  ∀ source ∈ task.source?, ¬ disk.PassesThrough .target source top

/-! ## Uses of a staging directory -/

/-- Whether files are those that the tasks leave that have been done, the last one first. -/
structure Left (disk : FileSystem) (done : List Task) (copied described : Option File) :
    Prop where
  copied : Option.Rel disk.Copies (done.findSome? Task.source?) copied
  described : described = (done.findSome? Task.descriptor?).map fileOf

/-- A task is done, and then its file is the one that is left, or it fails and nothing changes. -/
theorem Guarded.perform_cases {session : Session}
    (guarded : Guarded disk (above ++ [name]) copied described session.disk)
    (wellFormed : disk.WellFormed) (ends : disk.resolve .entry path = .ok (.vacant above name))
    {done : List Task} (left : Left disk done copied described) {task : Task}
    (passesBy : task.PassesBy disk (above ++ [name])) :
    (∃ value later copiedNext describedNext,
        perform ⟨path⟩ task session = .ok value later ∧
        Left disk (task :: done) copiedNext describedNext ∧
        Guarded disk (above ++ [name]) copiedNext describedNext later.disk) ∨
      ∃ fault later, perform ⟨path⟩ task session = .error fault later ∧
        Guarded disk (above ++ [name]) copied described later.disk := by
  cases task with
  | executable source =>
      rcases guarded.addExecutable_cases wellFormed ends (passesBy source rfl) session.log with
        ⟨file, value, later, copies, ran, next⟩ | failed
      · exact .inl ⟨value, later, some file, described, ran,
          ⟨.some copies, left.described⟩, next⟩
      · exact .inr failed
  | descriptor asked =>
      rcases guarded.addDescriptor_cases wellFormed ends asked session.log with
        ⟨value, later, ran, next⟩ | failed
      · exact .inl ⟨value, later, copied, some (fileOf asked), ran, ⟨left.copied, rfl⟩, next⟩
      · exact .inr failed

/-- A use in which the files are those that the tasks leave that have been done. -/
def Use.Sound (disk : FileSystem) (top : Location) (use : Use) : Prop :=
  ∃ copied described, Left disk use.done copied described ∧
    Guarded disk top copied described use.session.disk

section Runs

variable {use : Use} (wellFormed : disk.WellFormed)
  (ends : disk.resolve .entry path = .ok (.vacant above name))

include wellFormed ends

theorem Use.Sound.next (sound : use.Sound disk (above ++ [name])) {task : Task}
    (passesBy : task.PassesBy disk (above ++ [name])) :
    (use.next ⟨path⟩ task).Sound disk (above ++ [name]) := by
  rcases sound with ⟨copied, described, left, guarded⟩
  rcases guarded.perform_cases wellFormed ends left passesBy with
    ⟨value, later, copiedNext, describedNext, ran, leftNext, next⟩ | ⟨fault, later, failed, next⟩
  · rw [Use.next, ran]
    exact ⟨copiedNext, describedNext, leftNext, next⟩
  · rw [Use.next, failed]
    exact ⟨copied, described, left, next⟩

/-- Whatever tasks are turned to, and whichever of them fail, the use stays sound. -/
theorem Use.Sound.foldl {tasks : List Task} (sound : use.Sound disk (above ++ [name]))
    (passBy : ∀ task ∈ tasks, task.PassesBy disk (above ++ [name])) :
    (tasks.foldl (Use.next ⟨path⟩) use).Sound disk (above ++ [name]) := by
  induction tasks generalizing use with
  | nil =>
      exact sound
  | cons task rest hypothesis =>
      exact hypothesis (sound.next wellFormed ends (passBy task (List.mem_cons_self ..)))
        fun other member => passBy other (List.mem_cons_of_mem _ member)

end Runs

/-! ## What a use shows and leaves -/

/-- What can be seen in a file system while a staging directory is in use. -/
structure Shows (disk : FileSystem) (top : Location) (done : List Task) (state : FileSystem) :
    Prop where
  /-- Outside nothing has changed. -/
  outside : ∀ other, ¬ top <+: other → state.view? other = disk.view? other
  directory : state.view? top = some .directory
  /-- A copy that has failed may have left the directory for it. -/
  bin : state.view? (binLocation top) = none ∨ state.view? (binLocation top) = some .directory
  /-- The executable is the copy that has been made last. -/
  executable : ∃ copied, Option.Rel disk.Copies (done.findSome? Task.source?) copied ∧
    state.view? (executableLocation top) = copied.map .file
  /-- The descriptor is the one that has been written last. -/
  descriptor : state.view? (descriptorLocation top) =
    (done.findSome? Task.descriptor?).map fun asked => .file (fileOf asked)
  nothingElse : ∀ names, names ≠ [] → names ∉ innerNames → state.view? (top ++ names) = none

/-- Whether a staging directory shows what has been done, and can be taken away without a trace. -/
structure Guards (disk : FileSystem) (top : Location) (staging : StagingDirectory) (use : Use) :
    Prop where
  shows : Shows disk top use.done use.session.disk
  /-- A task that fails changes neither file. -/
  refused : ∀ task : Task, task.PassesBy disk top → ∀ fault later,
    staging.perform task use.session = .error fault later →
    later.disk.view? (executableLocation top) =
        use.session.disk.view? (executableLocation top) ∧
      later.disk.view? (descriptorLocation top) =
        use.session.disk.view? (descriptorLocation top)
  removed : ∃ last, staging.remove use.session = .ok () last ∧ Alike last.disk disk
  abandoned : ∃ last, staging.abandon use.session = .ok () last ∧ Alike last.disk disk

section

variable {session : Session} {use : Use} {done : List Task} (wellFormed : disk.WellFormed)
  (ends : disk.resolve .entry path = .ok (.vacant above name))

include wellFormed ends

theorem Guarded.shows (guarded : Guarded disk (above ++ [name]) copied described state)
    (left : Left disk done copied described) : Shows disk (above ++ [name]) done state where
  outside := by
    intro other outside
    have same := (guarded.alike_cut wellFormed ends).views other
    rwa [view?_cut _ (by simp), if_neg outside] at same
  directory := view?_eq_directory_iff.mpr guarded.stands
  bin := by
    rw [guarded.wellFormed.filed.view?_eq_none_iff, view?_eq_directory_iff]
    exact guarded.bin
  executable := ⟨copied, left.copied, guarded.executable.view?_eq⟩
  descriptor := by
    rw [guarded.descriptor.view?_eq, left.described, Option.map_map]
    rfl
  nothingElse := fun names proper outside =>
    guarded.wellFormed.filed.view?_eq_none_iff.mpr (guarded.nothingElse names proper outside)

/-- A sound use can go on or end, and both is safe. -/
theorem Use.Sound.guards (sound : use.Sound disk (above ++ [name])) :
    Guards disk (above ++ [name]) ⟨path⟩ use := by
  rcases sound with ⟨copied, described, left, guarded⟩
  have removed := guarded.removeTree_eq wellFormed ends
  have alike := guarded.alike_cut wellFormed ends
  refine ⟨guarded.shows wellFormed ends left, ?_, ?_, ?_⟩
  · intro task passesBy fault later failed
    rcases guarded.perform_cases wellFormed ends left passesBy with
      ⟨_, _, _, _, ran, -, -⟩ | ⟨_, _, ran, next⟩
    · rw [ran] at failed
      cases failed
    · rw [ran] at failed
      cases failed
      rw [next.executable.view?_eq, next.descriptor.view?_eq, guarded.executable.view?_eq,
        guarded.descriptor.view?_eq]
      exact ⟨rfl, rfl⟩
  · exact ⟨_, run_bind_of_ok (Job.call_of_ok removed), alike⟩
  · exact ⟨_, Job.attempt_of_ok removed, alike⟩

end

/--
At a path with an existing parent at which nothing stands a staging directory is made, unless the
path does not lead to a vacant name at all; then nothing has changed.  Whatever is asked of the
staging directory afterwards, and whatever of it fails, it holds what has been done and nothing
else, and it can be taken away in both ways without leaving a trace.  The executables have to be
reached without the staging directory, which is to be read off the file system before it is made.
-/
theorem guard_holds {session : Session} (wellFormed : session.disk.WellFormed)
    (absent : session.disk.Absent path) (hasParent : session.disk.HasParent path) :
    ((∀ above name, session.disk.resolve .entry path ≠ .ok (.vacant above name)) ∧
        ∃ fault, create path session = .error fault session) ∨
      ∃ above name made, session.disk.resolve .entry path = .ok (.vacant above name) ∧
        create path session = .ok ⟨path⟩ made ∧
        ∀ tasks : List Task, (∀ task ∈ tasks, task.PassesBy session.disk (above ++ [name])) →
          Guards session.disk (above ++ [name]) ⟨path⟩ (performAll ⟨path⟩ made tasks) := by
  rw [create_of_absent absent.pathExists_eq_false]
  rcases makeDirectories_of_missing absent hasParent with
    ⟨above, name, ends, made⟩ | ⟨noVacancy, fault, refused⟩
  · right
    rcases make_of_made made with ⟨log, ran⟩
    refine ⟨above, name, _, ends, ran, fun tasks passBy => ?_⟩
    rcases resolve_holds wellFormed ends with ⟨stands, vacant, isName⟩
    have begins : (Use.mk [] ⟨session.disk.put (above ++ [name]) .directory, log⟩).Sound
        session.disk (above ++ [name]) :=
      ⟨none, none, ⟨.none, rfl⟩, guarded_put wellFormed stands vacant isName⟩
    exact (begins.foldl wellFormed ends passBy).guards wellFormed ends
  · left
    exact ⟨noVacancy, .io fault, make_of_refused refused⟩

/-! ## A staging directory in use -/

/-- A file system with an executable that runs as its owner. -/
def workshop : FileSystem :=
  stateAfter
    (do
      writeFile (.ofString "/sur") (.plain [0x78])
      changeMode (.ofString "/sur") 0o4755)
    FileSystem.empty

theorem wellFormed_workshop : FileSystem.WellFormed workshop :=
  Keeps.bind (keeps_writeFile _ _) (fun _ => keeps_changeMode _ _) _ wellFormed_empty

theorem absent_workshop : workshop.Absent (.ofString "/stage/") := by
  intro place found
  have missing : workshop.locateEntry (.ofString "/stage/") = .error (.refused .notFound) := by
    cbv
  have impossible := missing.symm.trans found
  cases impossible

theorem hasParent_workshop : workshop.HasParent (.ofString "/stage/") :=
  ⟨.ofString "/", by decide, .inr (by cbv)⟩

theorem resolve_workshop :
    workshop.resolve .entry (.ofString "/stage/") =
      .ok (.vacant [] (Utf8.ofString "stage")) := by
  cbv

/-- A staging directory is asked for a missing executable, a descriptor and an executable. -/
theorem guard_holds_workshop :
    ∃ made, create (.ofString "/stage/") ⟨workshop, []⟩ = .ok ⟨.ofString "/stage/"⟩ made ∧
      Guards workshop [Utf8.ofString "stage"] ⟨.ofString "/stage/"⟩
        (performAll ⟨.ofString "/stage/"⟩ made
          [.executable (.ofString "/missing"), .descriptor (.forExecutable "0"),
            .executable (.ofString "/sur")]) := by
  have wellFormed : (Session.mk workshop []).disk.WellFormed := wellFormed_workshop
  rcases guard_holds wellFormed absent_workshop hasParent_workshop with
    ⟨noVacancy, -⟩ | ⟨above, name, made, ends, ran, guards⟩
  · exact absurd resolve_workshop (noVacancy _ _)
  · have same := resolve_workshop.symm.trans ends
    cases same
    refine ⟨made, ran, guards _ ?_⟩
    intro task member source about
    simp only [List.mem_cons, List.not_mem_nil, or_false] at member
    rcases member with rfl | rfl | rfl
    · cases about
      decide
    · cases about
    · cases about
      decide

/-- Whether an action succeeds and leaves a file at a location. -/
def leavesFile {α : Type} (action : Job α) (session : Session) (location : Location)
    (file : File) : Bool :=
  match action session with
  | .ok _ last => last.disk.view? location = some (.file file)
  | .error _ _ => false

theorem exists_of_leavesFile {α : Type} {action : Job α} {session : Session}
    {location : Location} {file : File} (leaves : leavesFile action session location file = true) :
    ∃ value last, action session = .ok value last ∧
      last.disk.view? location = some (.file file) := by
  rw [leavesFile] at leaves
  split at leaves
  · next value last ran =>
    exact ⟨value, last, ran, of_decide_eq_true leaves⟩
  · cases leaves

/-- Copying takes from an executable that it runs as its owner. -/
theorem addExecutable_lowers :
    workshop.WellFormed ∧ workshop.Absent (.ofString "/stage/") ∧
      workshop.HasParent (.ofString "/stage/") ∧
      ¬ workshop.PassesThrough .target (.ofString "/sur") [Utf8.ofString "stage"] ∧
      workshop.view? [Utf8.ofString "sur"] = some (.file ⟨0o4755, .plain [0x78]⟩) ∧
      ∃ value last,
        (create (.ofString "/stage/") >>= fun staging =>
          staging.addExecutable (.ofString "/sur")) ⟨workshop, []⟩ = .ok value last ∧
        last.disk.view? (executableLocation [Utf8.ofString "stage"]) =
          some (.file ⟨0o755, .plain [0x78]⟩) := by
  refine ⟨wellFormed_workshop, absent_workshop, hasParent_workshop, by decide, by decide, ?_⟩
  apply exists_of_leavesFile
  cbv

end StagingDirectory

end BundlePacker
