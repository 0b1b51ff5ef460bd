import BundlePacker.Bundle
import BundlePacker.CommandLine.Usage

/-!
# The program

The program reads its command line, makes the bundle in the working directory and tells what came of
it.  Its whole effect is a function of the arguments and the file system.
-/

namespace BundlePacker.Program

/-- What a run of the program leaves behind besides files. -/
structure Outcome where
  exitStatus : Nat
  /-- What went to the standard output. -/
  output : String
  /-- What went to the standard error. -/
  errors : String
deriving DecidableEq

/-- The head line of a run. -/
def introduction : String :=
  "T  sur artifact bundle\n|\n"

/-- The last line of a run that made a bundle. -/
def conclusion (archive : Path) : String :=
  "\u2014  Artifact bundle created: " ++ archive.display ++ "\n"

/-- The last line of a run that failed. -/
def complaint (error : Error) : String :=
  "Error: " ++ error.message ++ "\n"

/-- What a run answers to a command line that is no request. -/
def refuse (program : String) (refusal : CommandLine.Refusal) : Outcome where
  exitStatus := refusal.exitStatus
  output := if refusal.isError then "" else refusal.message program
  errors := if refusal.isError then refusal.message program else ""

/-- Make the requested bundle in the working directory. -/
def fulfil (request : CommandLine.Request) (disk : FileSystem) : Outcome × FileSystem :=
  match disk.currentDirectory with
  | .error fault => (⟨1, "", complaint (.io fault)⟩, disk)
  | .ok base =>
    match Bundle.create base (.ofString request.executable) request.version ⟨disk, []⟩ with
    | .ok archive session => (⟨0, "", introduction ++ conclusion archive⟩, session.disk)
    | .error error session => (⟨1, "", introduction ++ complaint error⟩, session.disk)

/-- Run the program under a name with the given arguments. -/
def run (program : String) (arguments : List Bytes) (disk : FileSystem) : Outcome × FileSystem :=
  match CommandLine.Request.ofArguments arguments with
  | .error refusal => (refuse program refusal, disk)
  | .ok request => fulfil request disk

end BundlePacker.Program
