import BundlePacker.Job

/-!
# Archives of directory trees

An archive of a tree holds its regular files, each under its path below the root.  Directories,
links and special nodes leave no entry.  The output is opened before the tree is looked at, and it
is removed again when a file can not be added.  It is written while the files are read: what comes
before the bytes of an entry goes out before the file of the entry is opened.
-/

namespace BundlePacker.Archive

/-- The text of components, when each of them is well-formed. -/
def componentTexts? : List Path.Component → Option (List String)
  | [] => some []
  | component :: rest => do
    let first ← Utf8.toString? component.bytes
    let others ← componentTexts? rest
    some (first :: others)

/-- The name of an entry for a file at a path: its components below the root, with slashes. -/
def entryName (root path : Path) : Except Error String :=
  match root.below? path with
  | none => .error (.outsideTree path root)
  | some components =>
    match componentTexts? components with
    | none => .error (.nameNotText path)
    | some texts => .ok (String.intercalate "/" texts)

/-- The moment that is stamped on every entry, so that archives of the same files are the same. -/
def stampedMoment : Moment :=
  ⟨1980, 1, 1, 0, 0, 0⟩

/-- The timestamp of every entry. -/
def stamp : Except Error Timestamp :=
  match Timestamp.ofMoment? stampedMoment with
  | some modified => .ok modified
  | none => .error (.invalidTimestamp stampedMoment.display)

/-- The entry of a file that was found in a tree, before anything is known of its bytes. -/
def heading (disk : FileSystem) (root : Path) (modified : Timestamp) (path : Path) (id : Nat) :
    Except Error Entry :=
  match entryName root path with
  | .error fault => .error fault
  | .ok name =>
    if FileSystem.pathLimit ≤ path.bytes.length then
      .error (.io (.refused .nameTooLong))
    else
      match disk.file? id with
      | none => .error (.io (.refused .notFound))
      | some file =>
        .ok
          { name
            data := []
            permissions := file.mode.setWidth 9
            method := .deflate
            modified }

/--
The disk at the moment when the bytes of an entry are due: what comes before them has been written
behind the entries that are done.
-/
def underway (disk : FileSystem) (handle : FileSystem.Handle) (done : List Entry) (next : Entry) :
    Except ArchiveFault FileSystem :=
  if next.name ∈ done.map (·.name) then .error (.duplicateName next.name)
  else
    match FileSystem.write handle (.plain (Format.beginning done next)) disk with
    | .ok _ reading => .ok reading
    | .error fault _ => .error (.io fault)

/-- What has been gathered for an archive. -/
structure Gathered where
  /-- The entries, in order.  One that could not be read has no bytes. -/
  entries : List Entry
  /-- An event for each entry. -/
  events : List Event
  /-- Why the next file can not be added. -/
  failure : Option Error

/--
The entries of what a walk found, up to the first thing that can not be added.  They go behind those
that are done.  Each file is read when the archive has got as far as its entry, so what a file holds
that is the archive itself depends on the entries before it.
-/
def gather (disk : FileSystem) (handle : FileSystem.Handle) (root : Path) (modified : Timestamp) :
    List Entry → List FileSystem.Found → Gathered
  | _, [] => ⟨[], [], none⟩
  | _, .tooDeep path :: _ => ⟨[], [], some (.walk path (.refused .nameTooLong))⟩
  | done, .file path id :: rest =>
    match heading disk root modified path id with
    | .error fault => ⟨[], [], some fault⟩
    | .ok entry =>
      let event := Event.adding path entry.name
      match underway disk handle done entry with
      | .error fault => ⟨[], [event], some (.archive fault)⟩
      | .ok reading =>
        match reading.readFile id with
        | .error fault => ⟨[entry], [event], some (.io fault)⟩
        | .ok data =>
          let whole := { entry with data }
          let later := gather disk handle root modified (done ++ [whole]) rest
          ⟨whole :: later.entries, event :: later.events, later.failure⟩

/-- The entries of the regular files in a tree, for an archive that has been opened. -/
def gatherTree (disk : FileSystem) (handle : FileSystem.Handle) (root : Path) : Gathered :=
  match stamp with
  | .error fault => ⟨[], [], some fault⟩
  | .ok modified =>
    match disk.walk root with
    | .error fault => ⟨[], [], some (.walk root fault)⟩
    | .ok found => gather disk handle root modified [] found

/-- Write the whole archive. -/
def finish (handle : FileSystem.Handle) (entries : List Entry) : Job Unit :=
  Job.onDisk (fun fault => .archive (.io fault)) (FileSystem.write handle (.archive entries))

/-- Remove an archive that could not be finished. -/
def discard (output : Path) : Job Unit :=
  Job.attempt (.archiveLeft output) (FileSystem.removeFile output)

/-- Archive the tree at a path, and give the names of the entries. -/
def create (source output : Path) : Job (List String) := do
  let handle ← Job.call (FileSystem.openToWrite output)
  let session ← get
  let gathered := gatherTree session.disk handle source
  Job.noteAll gathered.events
  match gathered.failure with
  | none =>
    (finish handle gathered.entries).orElseDo (discard output)
    pure (gathered.entries.map fun entry => entry.name)
  | some fault =>
    -- An archive that is given up is finished all the same, before its name is taken away.
    (finish handle gathered.entries).regardless
    discard output
    throw fault

end BundlePacker.Archive
