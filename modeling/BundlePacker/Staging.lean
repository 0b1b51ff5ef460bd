import BundlePacker.Archive.Create
import BundlePacker.Descriptor.Basic

/-!
# Staging directories

The tree that becomes an archive is laid out in a staging directory first.  The directory exists for
the time of one run: it starts empty, whatever an earlier run left there, and it is removed at the
end.  When the run fails it is removed as well, and then a failure to do so is only an event.
-/

namespace BundlePacker

/-- A directory in which a bundle is laid out. -/
structure StagingDirectory where
  path : Path
deriving DecidableEq

namespace StagingDirectory

/-- Make an empty staging directory. -/
def create (path : Path) : Job StagingDirectory := do
  let session ← get
  if session.disk.pathExists path then
    Job.note (.removingStale path)
    Job.call (FileSystem.removeTree path)
  Job.call (FileSystem.makeDirectories path)
  Job.note (.createdStaging path)
  pure ⟨path⟩

/-- Where the executable lies in a staging directory. -/
def executablePath (staging : StagingDirectory) : Path :=
  staging.path.join (.ofString Descriptor.executablePath)

/-- Where the descriptor lies in a staging directory. -/
def descriptorPath (staging : StagingDirectory) : Path :=
  staging.path.join (.ofString Descriptor.fileName)

/-- Copy an executable to its place. -/
def addExecutable (staging : StagingDirectory) (source : Path) : Job Path := do
  let count ← Job.call (FileSystem.copyFile source staging.executablePath)
  Job.note (.copied source count staging.executablePath)
  pure staging.executablePath

/-- Write a descriptor to its place. -/
def addDescriptor (staging : StagingDirectory) (descriptor : Descriptor) : Job Path := do
  let bytes ← Job.ofExcept (descriptor.encode.mapError .json)
  Job.call (FileSystem.writeFile staging.descriptorPath (.plain bytes))
  Job.note (.wrote staging.descriptorPath)
  pure staging.descriptorPath

/-- What is written is the text of the descriptor, as nothing keeps it from being printed. -/
theorem addDescriptor_eq (staging : StagingDirectory) (descriptor : Descriptor) :
    staging.addDescriptor descriptor = (do
      Job.call (FileSystem.writeFile staging.descriptorPath
        (.plain (Utf8.ofString descriptor.render)))
      Job.note (.wrote staging.descriptorPath)
      pure staging.descriptorPath) := by
  rw [addDescriptor, descriptor.encode_eq]
  rfl

/-- Remove a staging directory that is no longer needed. -/
def remove (staging : StagingDirectory) : Job Unit := do
  Job.call (FileSystem.removeTree staging.path)
  Job.note (.removedStaging staging.path)

/-- Remove a staging directory after a failure, as far as that is possible. -/
def abandon (staging : StagingDirectory) : Job Unit :=
  Job.attempt (.stagingLeft staging.path) (FileSystem.removeTree staging.path)

end StagingDirectory

end BundlePacker
