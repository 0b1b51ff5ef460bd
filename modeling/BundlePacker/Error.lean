import BundlePacker.FileSystem.Fault
import BundlePacker.Json.ReadError
import BundlePacker.Path

/-!
# Errors

Everything that can go wrong with a bundle.  An error has a text for its reader and a list of
deeper causes, from the nearest to the last.
-/

namespace BundlePacker

/-- What can go wrong inside an archive. -/
inductive ArchiveFault where
  | io (fault : FileSystem.Fault)
  | entryNotFound
  /-- Two entries of an archive can not have one name. -/
  | duplicateName (name : String)
deriving DecidableEq

/-- The text of a fault inside an archive. -/
def ArchiveFault.message : ArchiveFault → String
  | io _ => "i/o error"
  | entryNotFound => "specified file not found in archive"
  | duplicateName name => "invalid Zip archive: Duplicate filename: " ++ name

/-- What can go wrong with a bundle. -/
inductive Error where
  /-- A path does not lie below the root of the tree that is archived. -/
  | outsideTree (path root : Path)
  /-- The name of a file in the tree that is archived is not well-formed text. -/
  | nameNotText (path : Path)
  /-- The executable can not be looked at. -/
  | executableNotFound (path : Path) (cause : FileSystem.Fault)
  /-- The executable is no regular file. -/
  | notAFile (path : Path)
  /-- An archive can not record the moment given as the time of last change. -/
  | invalidTimestamp (shown : String)
  | io (fault : FileSystem.Fault)
  | archive (fault : ArchiveFault)
  | json (fault : Json.ReadError)
  /-- A tree, or a directory in it, can not be listed. -/
  | walk (path : Path) (cause : FileSystem.Fault)
  /-- An error that is nothing but its text. -/
  | custom (text : String)
deriving DecidableEq

namespace Error

/-- The text of an error. -/
def message : Error → String
  | outsideTree path root => path.display ++ " is outside " ++ root.display
  | nameNotText path => "Non UTF-8 path in staging tree: " ++ path.display
  | executableNotFound path cause =>
    "Cannot read executable " ++ path.display ++ ": " ++ cause.message
  | notAFile path => "Executable path is not a regular file: " ++ path.display
  | invalidTimestamp shown => "Invalid archive timestamp: " ++ shown
  | io fault => "I/O error: " ++ fault.message
  | archive fault => "Archive error: " ++ fault.message
  | json fault => "JSON error: " ++ fault.message
  | walk path cause =>
    "Directory walk error: IO error for operation on " ++ path.display ++ ": " ++ cause.message
  | custom text => text

/-- The texts of the causes of an error, the nearest first. -/
def causes : Error → List String
  | executableNotFound _ cause => [cause.message]
  | io fault => [fault.message]
  | archive (.io fault) => [(ArchiveFault.io fault).message, fault.message]
  | archive fault => [fault.message]
  | json fault => [fault.message]
  | walk path cause =>
    ["IO error for operation on " ++ path.display ++ ": " ++ cause.message, cause.message]
  | outsideTree _ _ | nameNotText _ | notAFile _ | invalidTimestamp _ | custom _ => []

end Error

end BundlePacker
