import BundlePacker.FileSystem.Calls

/-!
# Trees of directories, and copies

Work on files that takes several calls.  A directory is made together with the missing ones above
it, a tree is removed with everything in it, and a file is copied with its mode.  Where such work
fails half way, what it did until then stays.
-/

namespace BundlePacker.FileSystem

/-- Make a directory, unless one is there already. -/
def admitDirectory (path : Path) : Call Unit :=
  fun system =>
    match makeDirectory path system with
    | .ok _ next => .ok () next
    | .error fault next => if next.isDirectory path then .ok () next else .error fault next

/--
Make the first of a list of directories, of which each has to lie in the one after it.  Where the
one above is missing, it is made first.
-/
def makeDirectoryIn : List Path → Call Unit
  | [] => pure ()
  | path :: above => fun system =>
    if path.bytes = [] then
      .ok () system
    else
      match makeDirectory path system with
      | .error (.refused .notFound) _ => (makeDirectoryIn above *> admitDirectory path) system
      | _ => admitDirectory path system

/-- Make a directory and every missing one above it. -/
def makeDirectories (path : Path) : Call Unit :=
  makeDirectoryIn path.ancestors

/-- Make sure that something stands at a path: a directory is made where nothing does. -/
def ensureDirectory (path : Path) : Call Unit :=
  fun system => if system.pathExists path then .ok () system else makeDirectories path system

/-- Remove an empty directory, unless the path means nothing any more. -/
def dismissDirectory (path : Path) : Call Unit :=
  fun system =>
    match removeDirectory path system with
    | .ok _ next => .ok () next
    | .error fault next =>
      if fault = .refused .notFound then .ok () next else .error fault next

/--
Remove a directory with everything in it.  A link is removed and not followed, neither here nor
further down; a single file is refused.  A path that passes through what is in the directory means
nothing once that is gone, and then the directory itself stays.
-/
def removeTree (path : Path) : Call Unit := do
  let place ← Call.observe fun system => system.locateEntry path
  let system ← get
  match system.nodeAt? place with
  | some (.link _) => removeFile path
  | _ =>
    emptyDirectory path
    dismissDirectory path

/--
Copy a file's bytes and mode, and count the bytes.  The mode is that of the file before its copy is
opened, and the bytes are those after it, so a file that is copied onto itself becomes empty.  The
mode is given before the bytes are written, which lower it.
-/
def copyBytes (source destination : Path) : Call Nat := do
  match ← Call.observe fun system => system.openToRead source with
  | .irregular => throw .irregularSource
  | .file id =>
    let before ← get
    let handle ← openToWrite destination
    let after ← get
    match before.file? id, after.file? id with
    | some file, some opened =>
      grant handle file.mode
      write handle opened.content
      pure opened.content.bytes.length
    | _, _ => pure 0

/-- Make sure that the directory is there in which a path lies. -/
def prepareFor (path : Path) : Call Unit :=
  match path.parent? with
  | none => pure ()
  | some directory => ensureDirectory directory

/-- Copy a file, and make the directories that its copy needs first. -/
def copyFile (source destination : Path) : Call Nat := do
  prepareFor destination
  copyBytes source destination

/-- What a walk through a tree comes upon. -/
inductive Found where
  /-- A regular file, with the path that led to it. -/
  | file (path : Path) (id : Nat)
  /-- A directory that can not be opened, because its path is too long. -/
  | tooDeep (path : Path)
deriving DecidableEq

/-- The path of what lies below a path by the given names. -/
def pathBelow (root : Path) (names : List Name) : Path :=
  names.foldl (fun path name => path.join ⟨name⟩) root

/-- What a walk finds in the tree at a location, which a path leads to, by ascending location. -/
def foundIn (system : FileSystem) (root : Path) (location : Location) : List Found :=
  (system.below location).filterMap fun pair =>
    let path := pathBelow root (pair.1.drop location.length)
    match pair.2 with
    | .file id => some (.file path id)
    | .directory => if pathLimit ≤ path.bytes.length then some (.tooDeep path) else none
    | .link _ | .special _ => none

/--
What a walk finds in the tree at a path.  A directory's files come in the order of their names, with
the files of a directory below it in the place of that directory.  Links are not followed, unless
the path itself is one; a path that means a file is a tree of its own.
-/
def walk (system : FileSystem) (root : Path) : Except Fault (List Found) := do
  match ← system.locateEntry root with
  | .removed _ _ => .ok []
  | .live location =>
    match system.node? location with
    | some .directory => .ok (system.foundIn root location)
    | some (.file id) => .ok [.file root id]
    | some (.link _) =>
      match ← system.locate root with
      | .removed _ _ => .ok []
      | .live target =>
        if system.node? target = some .directory then .ok (system.foundIn root target) else .ok []
    | _ => .ok []

end BundlePacker.FileSystem
