import Mathlib
import BundlePacker.Program
import BundlePacker.Proofs.Bundle.Create

/-!
# What a run of the program comes to

A run reads its command line before it looks at the file system.  A command line that is refused is
answered, and nothing else happens.  A request is handed on: the bundle is made in the working
directory, the files are those that making it leaves, and the exit status tells whether it was made.

The main statement says so for every command line and every file system whose working directory
exists.
-/

namespace BundlePacker

open FileSystem (pathOf)

namespace CommandLine.Refusal

theorem exitStatus_eq (refusal : Refusal) :
    refusal.exitStatus = if refusal = .helpWanted then 0 else 2 := by
  cases refusal <;> rfl

theorem isError_iff (refusal : Refusal) : refusal.isError = true ↔ refusal ≠ .helpWanted := by
  cases refusal <;> simp [isError]

end CommandLine.Refusal

/-- The archive of a bundle lies in the base directory, and its name follows from the version. -/
theorem Bundle.archive_of_create {base executable archive : Path} {version : String}
    {session last : Session} (made : create base executable version session = .ok archive last) :
    archive = archivePath base version := by
  rcases exists_of_run_bind_eq_ok made with ⟨_, _, -, made⟩
  rcases exists_of_run_bind_eq_ok made with ⟨_, _, -, made⟩
  rcases exists_of_run_bind_eq_ok made with ⟨_, _, -, made⟩
  rcases exists_of_run_bind_eq_ok made with ⟨_, _, -, made⟩
  rcases exists_of_run_bind_eq_ok made with ⟨_, _, -, made⟩
  cases made
  rfl

namespace Program

open CommandLine (Request Refusal)

variable {arguments : List Bytes} {disk : FileSystem} {location : Location}

theorem run_of_refusal {refusal : Refusal}
    (refused : Request.ofArguments arguments = .error refusal) (program : String)
    (disk : FileSystem) :
    run program arguments disk = (refuse program refusal, disk) := by
  simp only [run, refused]

section

variable {request : Request} (requested : Request.ofArguments arguments = .ok request)
  (stands : disk.workingDirectory = .live location) (program : String)

include requested stands

/-- A request is fulfilled in the working directory. -/
theorem run_of_ok {archive : Path} {last : Session}
    (made : Bundle.create (pathOf location) (.ofString request.executable) request.version
      ⟨disk, []⟩ = .ok archive last) :
    run program arguments disk = (⟨0, "", introduction ++ conclusion archive⟩, last.disk) := by
  simp only [run, requested, fulfil, FileSystem.currentDirectory, stands, made]

theorem run_of_error {error : Error} {last : Session}
    (failed : Bundle.create (pathOf location) (.ofString request.executable) request.version
      ⟨disk, []⟩ = .error error last) :
    run program arguments disk = (⟨1, "", introduction ++ complaint error⟩, last.disk) := by
  simp only [run, requested, fulfil, FileSystem.currentDirectory, stands, failed]

end

/--
A run either refuses its command line, and then it touches nothing and fails unless help is asked
for, or it leaves what making the bundle leaves, and then it succeeds exactly if the bundle is made.
Its last line tells where the archive is, or else what has gone wrong.
-/
theorem run_settled (program : String) (commandLine : List Bytes) (disk : FileSystem)
    (location : Location) (stands : disk.workingDirectory = .live location) :
    (∀ refusal, Request.ofArguments commandLine.tail = .error refusal →
      (run program commandLine.tail disk).2 = disk ∧
        (run program commandLine.tail disk).1 =
          if refusal = .helpWanted then ⟨0, refusal.message program, ""⟩
          else ⟨2, "", refusal.message program⟩) ∧
    ∀ request, Request.ofArguments commandLine.tail = .ok request →
      (run program commandLine.tail disk).2 =
          (stateAfter
            (Bundle.create (pathOf location) (.ofString request.executable) request.version)
            ⟨disk, []⟩).disk ∧
        ((run program commandLine.tail disk).1.exitStatus = 0 ↔
          ∃ archive last,
            Bundle.create (pathOf location) (.ofString request.executable) request.version
              ⟨disk, []⟩ = .ok archive last) ∧
        (∀ archive last,
          Bundle.create (pathOf location) (.ofString request.executable) request.version
            ⟨disk, []⟩ = .ok archive last →
              archive = Bundle.archivePath (pathOf location) request.version ∧
                (run program commandLine.tail disk).1 =
                  ⟨0, "", "T  sur artifact bundle\n|\n" ++
                    ("\u2014  Artifact bundle created: " ++ archive.display ++ "\n")⟩) ∧
        ∀ error last,
          Bundle.create (pathOf location) (.ofString request.executable) request.version
            ⟨disk, []⟩ = .error error last →
              (run program commandLine.tail disk).1 =
                ⟨1, "", "T  sur artifact bundle\n|\n" ++
                  ("Error: " ++ error.message ++ "\n")⟩ := by
  constructor
  · intro refusal refused
    rw [run_of_refusal refused]
    refine ⟨rfl, ?_⟩
    by_cases help : refusal = .helpWanted
    · simp [refuse, help, Refusal.isError, Refusal.exitStatus_eq]
    · simp [refuse, help, refusal.isError_iff.mpr help, refusal.exitStatus_eq]
  · intro request requested
    cases outcome : Bundle.create (pathOf location) (.ofString request.executable) request.version
        ⟨disk, []⟩ with
    | ok archive last =>
        rw [run_of_ok requested stands program outcome]
        refine ⟨by rw [stateAfter, outcome], by simp, ?_, ?_⟩
        · intro other final same
          cases same
          exact ⟨Bundle.archive_of_create outcome, rfl⟩
        · intro error final impossible
          cases impossible
    | error error last =>
        rw [run_of_error requested stands program outcome]
        refine ⟨by rw [stateAfter, outcome], by simp, ?_, ?_⟩
        · intro other final impossible
          cases impossible
        · intro other final same
          cases same
          rfl

set_option maxRecDepth 8000 in
/-- Of two runs one is asked for help, and the other one makes a bundle. -/
theorem run_settled_sample :
    (run "sur" [Utf8.ofString "--help"] Bundle.sample).2 = Bundle.sample ∧
      (run "sur" [Utf8.ofString "--help"] Bundle.sample).1.exitStatus = 0 ∧
      (run "sur" [Utf8.ofString "-e/sur", Utf8.ofString "-v0"] Bundle.sample).1.exitStatus = 0 := by
  have help : Request.ofArguments [Utf8.ofString "--help"] = .error .helpWanted := by
    rfl
  have request : Request.ofArguments [Utf8.ofString "-e/sur", Utf8.ofString "-v0"] =
      .ok ⟨"/sur", "0"⟩ := by
    rfl
  have left : Bundle.leavesArchive
      (Bundle.create (pathOf []) (.ofString "/sur") "0" ⟨Bundle.sample, []⟩) = some true := by
    simp only [Bundle.create, Bundle.assemble, StagingDirectory.addDescriptor_eq]
    generalize Utf8.ofString (Descriptor.forExecutable "0").render = bytes
    cases bytes <;> cbv
  rcases Bundle.exists_of_leavesArchive_true left with ⟨archive, last, made⟩
  have settledHelp := (run_settled "sur" (Utf8.ofString "sur" :: [Utf8.ofString "--help"])
    Bundle.sample [] rfl).1 _ help
  have settled := (run_settled "sur"
    (Utf8.ofString "sur" :: [Utf8.ofString "-e/sur", Utf8.ofString "-v0"]) Bundle.sample [] rfl).2 _
      request
  simp only [List.tail_cons, if_true] at settledHelp settled
  exact ⟨settledHelp.1, congrArg Outcome.exitStatus settledHelp.2,
    settled.2.1.mpr ⟨archive, last, made⟩⟩

end Program

end BundlePacker
