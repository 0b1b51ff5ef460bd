import BundlePacker.FileSystem.Resolve

/-!
# Calls on a file system

The single steps by which a program changes a file system.  Each one either does its whole work or
fails and leaves the file system as it was.  Files are opened first and written through the handle,
so that a later change of names does not redirect what is written.
-/

namespace BundlePacker.FileSystem

/-- A computation on a file system that may fail and keeps what it did until then. -/
abbrev Call :=
  EStateM Fault FileSystem

namespace Call

/-- Look at the file system without changing it. -/
def observe {α : Type} (look : FileSystem → Except Fault α) : Call α :=
  fun system =>
    match look system with
    | .ok value => .ok value system
    | .error fault => .error fault system

/-- Change the file system, or refuse to. -/
def alter (change : FileSystem → Except Fault FileSystem) : Call Unit :=
  fun system =>
    match change system with
    | .ok next => .ok () next
    | .error fault => .error fault system

end Call

/-- The bits of a new file's mode that the process leaves it. -/
def freshMode : Mode :=
  0o644

/-- Every directory's mode. -/
def directoryMode : Mode :=
  0o755

/-- The mode of what a path means. -/
def modeOf (system : FileSystem) (path : Path) : Except Fault Mode := do
  let place ← system.locate path
  match system.nodeAt? place with
  | some (.file id) => .ok ((system.file? id).elim directoryMode File.mode)
  | some (.special .device) => .ok 0o666
  | _ => .ok directoryMode

/-- Make a directory.  Whatever stands there already, even a link to nowhere, is in the way. -/
def makeDirectory (path : Path) : Call Unit :=
  .alter fun system => do
    match ← system.resolve .entry path with
    | .occupied _ => .error (.refused .alreadyExists)
    | .vacant directory name => .ok (system.put (directory ++ [name]) .directory)

/-- Where something new can stand that is no directory, and so can not be written with a slash. -/
def vacancy (system : FileSystem) (path : Path) : Except Fault Location := do
  match ← system.resolve .entry path with
  | .occupied _ => .error (.refused .alreadyExists)
  | .vacant directory name =>
    if path.endsInSlash then .error (.refused .notFound) else .ok (directory ++ [name])

/-- Make a symbolic link. -/
def makeLink (path target : Path) : Call Unit :=
  .alter fun system => do
    if (0 : UInt8) ∈ target.bytes then .error .zeroByte
    else if target.bytes = [] then .error (.refused .notFound)
    else if pathLimit ≤ target.bytes.length then .error (.refused .nameTooLong)
    else
      let location ← system.vacancy path
      .ok (system.put location (.link target))

/-- Make a socket.  To the system its path is an address, which can be in use. -/
def makeSocket (path : Path) : Call Unit :=
  .alter fun system =>
    match system.vacancy path with
    | .ok location => .ok (system.put location (.special .socket))
    | .error (.refused .alreadyExists) => .error (.refused .addressInUse)
    | .error fault => .error fault

/-- Give what stands at one path a second name; a directory has only one. -/
def makeName (path existing : Path) : Call Unit :=
  .alter fun system => do
    let source ← system.locateEntry existing
    let location ← system.vacancy path
    match system.nodeAt? source with
    | none => .error (.refused .notFound)
    | some .directory => .error (.refused .notPermitted)
    | some node => .ok (system.put location node)

/-- Make a directory the working directory. -/
def changeDirectory (path : Path) : Call Unit :=
  .alter fun system => do
    let place ← system.locate path
    if system.nodeAt? place = some .directory then
      .ok { system with workingDirectory := place }
    else
      .error (.refused .notDirectory)

/-- Remove one name of something that is no directory; a link is removed and not followed. -/
def removeFile (path : Path) : Call Unit :=
  .alter fun system => do
    match ← system.resolve .entry path with
    | .vacant _ _ => .error (.refused .notFound)
    | .occupied (.removed _ _) => .error (.refused .isDirectory)
    | .occupied (.live location) =>
      if system.node? location = some .directory then .error (.refused .isDirectory)
      else if path.endsInSlash then .error (.refused .notDirectory)
      else .ok (system.cut location)

/-- Remove an empty directory, which has to be called by its name. -/
def removeDirectory (path : Path) : Call Unit :=
  .alter fun system => do
    match ← system.resolve .entry path with
    | .vacant _ _ => .error (.refused .notFound)
    | .occupied place =>
      match path.names.getLast? with
      | none => .error (.refused .busy)
      | some name =>
        if name = selfName then .error (.refused .invalidArgument)
        else if name = parentName then .error (.refused .notEmpty)
        else
          match place with
          | .removed _ _ => .error (.refused .notFound)
          | .live location =>
            if system.node? location ≠ some .directory then .error (.refused .notDirectory)
            else if system.below location ≠ [] then .error (.refused .notEmpty)
            else .ok (system.cut location)

/-- Remove everything in the directory that a path means; in a removed one there is nothing. -/
def emptyDirectory (path : Path) : Call Unit :=
  .alter fun system => do
    match ← system.locate path with
    | .removed _ _ => .ok system
    | .live location =>
      if system.node? location = some .directory then .ok (system.clear location)
      else .error (.refused .notDirectory)

/-- What has been opened for reading. -/
inductive Source where
  /-- A regular file. -/
  | file (id : Nat)
  /-- A directory or a device. -/
  | irregular
deriving DecidableEq

/-- What a path means to a reader, whether it may be opened or not. -/
def sourceAt (system : FileSystem) (path : Path) : Except Fault Source := do
  let place ← system.locate path
  match system.nodeAt? place with
  | some (.file id) => .ok (.file id)
  | some (.special .socket) => .error (.refused .noDevice)
  | _ => .ok .irregular

/-- Open what a path means for reading, if the mode of a file lets its owner read it. -/
def openToRead (system : FileSystem) (path : Path) : Except Fault Source := do
  match ← system.sourceAt path with
  | .irregular => .ok .irregular
  | .file id =>
    if (system.file? id).all File.isReadable then .ok (.file id)
    else .error (.refused .accessDenied)

/-- Open a file for reading and read the whole of it. -/
def readFile (system : FileSystem) (id : Nat) : Except Fault Bytes :=
  match system.file? id with
  | none => .error (.refused .notFound)
  | some file =>
    if file.isReadable then .ok file.content.bytes else .error (.refused .accessDenied)

/-- What has been opened for writing. -/
inductive Handle where
  /-- A regular file. -/
  | file (id : Nat)
  /-- A device, which takes everything and keeps nothing. -/
  | sink
deriving DecidableEq

/--
Open a path for writing: an old file loses its content, if its mode lets its owner write to it, and
a missing one is made.
-/
def openToWrite (path : Path) : Call Handle :=
  fun system =>
    match system.resolve .creation path with
    | .error fault => .error fault system
    | .ok (.vacant directory name) =>
      .ok (.file system.files.length)
        ((system.addFile ⟨freshMode, .plain []⟩).put (directory ++ [name])
          (.file system.files.length))
    | .ok (.occupied place) =>
      match system.nodeAt? place with
      | some (.file id) =>
        if (system.file? id).all File.isWritable then
          .ok (.file id) (system.setContent id (.plain []))
        else
          .error (.refused .accessDenied) system
      | some (.special .device) => .ok .sink system
      | some (.special .socket) => .error (.refused .noDevice) system
      | _ => .error (.refused .isDirectory) system

/-- Write the whole content of what has been opened, which is empty.  No bytes change nothing. -/
def write : Handle → Content → Call Unit
  | .sink, _ | .file _, .plain [] => pure ()
  | .file id, content => .alter fun system => .ok (system.setContent id content)

/-- Give what has been opened a mode; a device keeps its own. -/
def grant : Handle → Mode → Call Unit
  | .file id, mode => .alter fun system => .ok (system.setMode id mode)
  | .sink, _ => pure ()

/-- Write a file whole: what was there is replaced, and the mode of an old file stays. -/
def writeFile (path : Path) (content : Content) : Call Unit := do
  let handle ← openToWrite path
  write handle content

/-- The content of the regular file that a path means, whether it may be opened or not. -/
def contentOf (system : FileSystem) (path : Path) : Except Fault Content := do
  match ← system.sourceAt path with
  | .irregular => .error (.refused .isDirectory)
  | .file id => .ok ((system.file? id).elim (.plain []) (·.content))

/-- Change the mode of the file that a path means. -/
def changeMode (path : Path) (mode : Mode) : Call Unit :=
  .alter fun system => do
    let place ← system.locate path
    match system.nodeAt? place with
    | some (.file id) => .ok (system.setMode id mode)
    | _ => .ok system

end BundlePacker.FileSystem
