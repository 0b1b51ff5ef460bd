import BundlePacker.FileSystem.Difference
import BundlePacker.Program

/-!
# The command line

The outer layer.  A run is decided by `Program.run` on a picture of the disk, which holds what the
run can look at; afterwards the disk is made to agree with the picture that the run leaves.

Two things can not be asked of the disk here.  The first is where a link leads that has no end, and
such a link is drawn as one that leads to itself, through which nothing can be read or written.

The second is the mode of a file, so every file is drawn with mode `755`, whatever its own is.  What
is proved about modes holds of `Program.run` on the picture, and not of the disk around it: the
archive records `755` for an executable with any other permissions, a new file keeps the mode that
the system gives it, and a run does not foresee that its executable may not be read or that an older
archive may not be written to.  It stops with the system's own message when the disk refuses.
-/

namespace BundlePacker.Outer

/-- The path of a location, as the disk is asked for it. -/
def nameOf (location : Location) : String :=
  (FileSystem.pathOf location).display

/-- Where the link at a location ends. -/
def endOf (location : Location) : IO Path := do
  match ← (IO.FS.realPath (nameOf location)).toBaseIO with
  | .ok found => return .ofString found.toString
  | .error _ => return FileSystem.pathOf location

/-- Draw the node at a location, unless it is drawn already or nothing stands there. -/
def draw (picture : FileSystem) (location : Location) : IO FileSystem := do
  if (picture.node? location).isSome then
    return picture
  let entry : IO.FS.DirEntry := ⟨"/", nameOf location⟩
  match ← entry.path.symlinkMetadata.toBaseIO with
  | .error _ => return picture
  | .ok found =>
    match found.type with
    | .dir => return picture.put location .directory
    | .symlink => return picture.put location (.link (← endOf location))
    | .other => return picture.put location (.special .socket)
    | .file =>
      let bytes ← IO.FS.readBinFile entry.path
      let file : FileSystem.File := ⟨FileSystem.directoryMode, .plain bytes.toList⟩
      return (picture.addFile file).put location (.file picture.files.length)

/-- Draw a location and everything above it. -/
def drawChain (picture : FileSystem) (location : Location) : IO FileSystem :=
  (List.range (location.length + 1)).foldlM
    (fun drawn count => draw drawn (location.take count)) picture

/-- Draw what a path passes on its way from a location, with the ends of the links in it. -/
def drawWay (picture : FileSystem) (here : Location) : List Name → IO FileSystem
  | [] => pure picture
  | name :: rest => do
    if name = FileSystem.selfName then
      drawWay picture here rest
    else if name = FileSystem.parentName then
      drawWay picture here.dropLast rest
    else
      let there := here ++ [name]
      let picture ← draw picture there
      match picture.node? there with
      | some (.link target) => drawWay (← drawChain picture target.names) target.names rest
      | _ => drawWay picture there rest

/-- Draw everything below a directory. -/
partial def drawTree (picture : FileSystem) (location : Location) : IO FileSystem := do
  if picture.node? location ≠ some .directory then
    return picture
  let directory : IO.FS.DirEntry := ⟨"/", nameOf location⟩
  let mut drawn := picture
  for entry in ← directory.path.readDir do
    let there := location ++ [Utf8.ofString entry.fileName]
    drawn ← drawTree (← draw drawn there) there
  return drawn

/-- Draw what the run for a request can look at. -/
def drawFor (request : CommandLine.Request) : IO FileSystem := do
  match ← IO.currentDir.toBaseIO with
  | .error _ => return { FileSystem.empty with workingDirectory := .removed 0 [] }
  | .ok found =>
    let base := Path.ofString found.toString
    let executable := Path.ofString request.executable
    let staging := Bundle.stagingPath base request.version
    let archive := Bundle.archivePath base request.version
    let mut picture ← drawChain FileSystem.empty base.names
    for path in [executable, staging, archive] do
      let start := if path.isAbsolute then [] else base.names
      picture ← drawWay picture start path.names
    match picture.locateEntry staging with
    | .ok (.live location) => picture ← drawTree picture location
    | .ok (.removed _ _) | .error _ => pure ()
    return { picture with workingDirectory := .live base.names }

/-- Make the disk agree with a picture that a run has changed. -/
def settle (before after : FileSystem) : IO Unit := do
  let difference := before.difference after []
  for location in difference.gone.reverse do
    if before.node? location = some .directory then
      IO.FS.removeDir (nameOf location)
    else
      IO.FS.removeFile (nameOf location)
  for (location, view) in difference.present do
    match view with
    | .directory => IO.FS.createDir (nameOf location)
    | .file file => IO.FS.writeBinFile (nameOf location) ⟨file.content.bytes.toArray⟩
    | .link _ | .special _ => pure ()

end BundlePacker.Outer

open BundlePacker in
/-- Make the bundle that the arguments ask for. -/
def main (arguments : List String) : IO UInt32 := do
  let program := CommandLine.programName (some (.ofString (← IO.appPath).toString))
  let given := arguments.map Utf8.ofString
  let before ←
    match CommandLine.Request.ofArguments given with
    | .ok request => Outer.drawFor request
    | .error _ => pure FileSystem.empty
  let (outcome, after) := Program.run program given before
  Outer.settle before after
  IO.print outcome.output
  IO.eprint outcome.errors
  return UInt32.ofNat outcome.exitStatus
