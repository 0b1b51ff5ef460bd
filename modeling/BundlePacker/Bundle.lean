import BundlePacker.Staging

/-!
# Bundles

A bundle is an archive with an executable and the descriptor of it.  It is made in a base directory,
under a name that follows from its version.  Making one either succeeds, and then nothing but the
archive is new, or fails, and then nothing is new at all.
-/

namespace BundlePacker

namespace Bundle

/-- The name of the bundle of a version. -/
def name (version : String) : String :=
  Descriptor.artifactName ++ "-" ++ version ++ ".artifactbundle"

/-- The name of the staging directory for a version. -/
def stagingName (version : String) : String :=
  name version ++ "_bundle"

/-- The name of the archive of a version. -/
def archiveName (version : String) : String :=
  name version ++ ".zip"

/-- Where the staging directory for a version is made. -/
def stagingPath (base : Path) (version : String) : Path :=
  base.join (.ofString (stagingName version))

/-- Where the archive of a version is made. -/
def archivePath (base : Path) (version : String) : Path :=
  base.join (.ofString (archiveName version))

/-- Refuse an executable that is missing or no regular file. -/
def checkExecutable (path : Path) : Job Unit :=
  fun session =>
    match session.disk.locate path with
    | .error fault => .error (.executableNotFound path fault) session
    | .ok place =>
      match session.disk.nodeAt? place with
      | some (.file _) => .ok () session
      | _ => .error (.notAFile path) session

/-- Lay out a bundle in a staging directory and archive it; the names of the entries. -/
def assemble (staging : StagingDirectory) (executable archive : Path) (version : String) :
    Job (List String) := do
  let _ ← staging.addExecutable executable
  let _ ← staging.addDescriptor (.forExecutable version)
  Archive.create staging.path archive

/-- Make the bundle of an executable in a base directory, and say where its archive is. -/
def create (base executable : Path) (version : String) : Job Path := do
  checkExecutable executable
  let staging ← StagingDirectory.create (stagingPath base version)
  let archive := archivePath base version
  let entries ← (assemble staging executable archive version).orElseDo staging.abandon
  staging.remove
  Job.note (.wroteEntries entries.length archive)
  pure archive

end Bundle

end BundlePacker
