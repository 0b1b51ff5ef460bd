import Std.Data.ExtTreeMap
import BundlePacker.Path
import BundlePacker.Archive.Format

/-!
# File systems

A file system is a finite map from locations to nodes.  A location is the list of names from the
root down to a node, with no links and no dots in it, so that every node has exactly one; the root
itself is always a directory and is not stored.  Files are kept apart from the names they go by,
because several names may mean one file.  What a caller can see at a location is its `view`, and the
lemmas below say what each elementary change does to nodes and files.

## Limits

This is what the file systems and the programs of this library leave out, and what is therefore no
part of any statement about them.

* Everything belongs to one user without privileges.  A file's mode decides by its owner's bits
  whether that user may read or write it.  Directories have no modes of their own: everyone may list
  them and change what is in them.  New files get the mode that a mask of `022` leaves.
* There is one kind of device.  It takes all bytes, gives none and can be put to any position.  A
  device that refuses bytes or positions fails in ways that no call of this library has.
* Otherwise a call fails only because of what stands in the tree, or because of its path.  There is
  always room, no medium breaks, and nothing else changes the tree while a program runs.
* Files have no times and no size limits.  An archive can record files below four gigabytes, and the
  programs are given no others.
* An archive's bytes are those of `Archive.Format`, which packs without compressing.  A file that is
  the archive itself is read as it stands when it is opened, and does not grow while it is read.
-/

namespace BundlePacker

/-- The name of an entry in a directory. -/
abbrev Name :=
  Bytes

/-- The place of a node: the names that lead to it from the root. -/
abbrev Location :=
  List Name

/-- The bits of a mode: set-id and sticky bits, then read, write and execute for all three. -/
abbrev Mode :=
  BitVec 12

namespace FileSystem

/-- What a file holds. -/
inductive Content where
  /-- Bytes that were written as they are. -/
  | plain (bytes : Bytes)
  /-- An archive with entries in this order. -/
  | archive (entries : List Archive.Entry)
deriving DecidableEq

/-- The bytes of a file's content. -/
def Content.bytes : Content → Bytes
  | plain bytes => bytes
  | archive entries => Archive.Format.encode entries

/-- A regular file, whatever its names are. -/
structure File where
  mode : Mode
  content : Content
deriving DecidableEq

/-- Whether the owner of a file may read it. -/
def File.isReadable (file : File) : Bool :=
  file.mode &&& 0o400 ≠ 0

/-- Whether the owner of a file may write to it. -/
def File.isWritable (file : File) : Bool :=
  file.mode &&& 0o200 ≠ 0

/--
The mode of a file that has been written to: the file does not run as its owner any more, nor as its
group if the group may execute it.
-/
def lowered (mode : Mode) : Mode :=
  if mode &&& 0o010 = 0 then mode &&& 0o3777 else mode &&& 0o1777

/-- Nodes that are neither files nor directories nor links. -/
inductive Special where
  /-- An end of a connection, which can not be opened. -/
  | socket
  /-- A device that takes all bytes and gives none. -/
  | device
deriving DecidableEq

/-- What stands at a location. -/
inductive Node where
  | directory
  /-- A name of the file with a given identity. -/
  | file (id : Nat)
  /-- A symbolic link, with the path it was made with. -/
  | link (target : Path)
  | special (special : Special)
deriving DecidableEq

/-- Where a path can lead. -/
inductive Place where
  /-- To a location of the tree. -/
  | live (location : Location)
  /--
  To a directory that was removed while it was in use.  It still knows the directory above the
  removed tree, and how many removed directories lie between the two.
  -/
  | removed (between : Nat) (above : Location)
deriving DecidableEq

/-- The place of the directory above a place. -/
def Place.parent : Place → Place
  | live location => live location.dropLast
  | removed 0 above => live above
  | removed (between + 1) above => removed between above

end FileSystem

/-- The tree of nodes, the files that its names mean, and the place where relative paths start. -/
structure FileSystem where
  nodes : Std.ExtTreeMap Location FileSystem.Node
  files : List FileSystem.File
  workingDirectory : FileSystem.Place

namespace FileSystem

/-- The file system that holds nothing but the root. -/
def empty : FileSystem :=
  ⟨∅, [], .live []⟩

/-- The node at a location. -/
def node? (system : FileSystem) (location : Location) : Option Node :=
  if location = [] then some .directory else system.nodes[location]?

/-- The node at a place.  A removed directory is a directory still. -/
def nodeAt? (system : FileSystem) : Place → Option Node
  | .live location => system.node? location
  | .removed _ _ => some .directory

/-- The file with a given identity. -/
def file? (system : FileSystem) (id : Nat) : Option File :=
  system.files[id]?

/-- What can be seen at a location. -/
inductive View where
  | directory
  | file (file : File)
  | link (target : Path)
  | special (special : Special)
deriving DecidableEq

/-- What can be seen at a location, when a node stands there. -/
def view? (system : FileSystem) (location : Location) : Option View :=
  match system.node? location with
  | none => none
  | some .directory => some .directory
  | some (.file id) => (system.file? id).map .file
  | some (.link target) => some (.link target)
  | some (.special special) => some (.special special)

/-- The nodes strictly below a location, by ascending location. -/
def below (system : FileSystem) (location : Location) : List (Location × Node) :=
  system.nodes.toList.filter fun pair => decide (location <+: pair.1 ∧ pair.1 ≠ location)

/-- Put a node at a location. -/
def put (system : FileSystem) (location : Location) (node : Node) : FileSystem :=
  { system with nodes := system.nodes.insert location node }

/-- What becomes of a place once the node at a location and all below it are gone. -/
def Place.without (location : Location) : Place → Place
  | live here =>
    if location <+: here then removed (here.length - location.length) location.dropLast
    else live here
  | removed between above =>
    if location <+: above then
      removed (between + (above.length - location.length) + 1) location.dropLast
    else removed between above

/-- What becomes of a place once everything below a location is gone. -/
def Place.withoutBelow (location : Location) : Place → Place
  | live here =>
    if location <+: here ∧ here ≠ location then
      removed (here.length - location.length - 1) location
    else live here
  | removed between above =>
    if location <+: above ∧ above ≠ location then
      removed (between + (above.length - location.length)) location
    else removed between above

/-- Take away the node at a location and everything below it. -/
def cut (system : FileSystem) (location : Location) : FileSystem :=
  { system with
    nodes := system.nodes.filter fun other _ => decide (¬ location <+: other)
    workingDirectory := system.workingDirectory.without location }

/-- Take away everything below a location. -/
def clear (system : FileSystem) (location : Location) : FileSystem :=
  { system with
    nodes := system.nodes.filter fun other _ => decide (¬ (location <+: other ∧ other ≠ location))
    workingDirectory := system.workingDirectory.withoutBelow location }

/-- Change what a file holds, which lowers its mode. -/
def setContent (system : FileSystem) (id : Nat) (content : Content) : FileSystem :=
  { system with files := system.files.modify id fun file => ⟨lowered file.mode, content⟩ }

/-- Change the mode of a file. -/
def setMode (system : FileSystem) (id : Nat) (mode : Mode) : FileSystem :=
  { system with files := system.files.modify id fun file => { file with mode } }

/-- Add a file that no name means yet; its identity is the number of files before. -/
def addFile (system : FileSystem) (file : File) : FileSystem :=
  { system with files := system.files ++ [file] }

/-! ## What the elementary changes do -/

@[simp]
theorem node?_root (system : FileSystem) : system.node? [] = some .directory := by
  simp [node?]

@[simp]
theorem nodeAt?_live (system : FileSystem) (location : Location) :
    system.nodeAt? (.live location) = system.node? location :=
  rfl

theorem node?_put (system : FileSystem) (location other : Location) (node : Node)
    (below_root : location ≠ []) :
    (system.put location node).node? other =
      if location = other then some node else system.node? other := by
  by_cases at_root : other = []
  · subst at_root
    simp [below_root]
  · simp [node?, put, at_root, Std.ExtTreeMap.getElem?_insert]

theorem node?_cut (system : FileSystem) (location other : Location) (below_root : location ≠ []) :
    (system.cut location).node? other =
      if location <+: other then none else system.node? other := by
  by_cases at_root : other = []
  · subst at_root
    simp [below_root]
  · simp only [node?, cut, at_root, if_false, Std.ExtTreeMap.getElem?_filter']
    by_cases inside : location <+: other <;> cases system.nodes[other]? <;> simp [inside]

theorem node?_clear (system : FileSystem) (location other : Location) (below_root : other ≠ []) :
    (system.clear location).node? other =
      if location <+: other ∧ other ≠ location then none else system.node? other := by
  simp only [node?, clear, below_root, if_false, Std.ExtTreeMap.getElem?_filter']
  by_cases inside : location <+: other ∧ other ≠ location <;>
    cases system.nodes[other]? <;> simp [inside, Option.filter]

@[simp]
theorem node?_setContent (system : FileSystem) (id : Nat) (content : Content)
    (location : Location) : (system.setContent id content).node? location = system.node? location :=
  rfl

@[simp]
theorem node?_setMode (system : FileSystem) (id : Nat) (mode : Mode) (location : Location) :
    (system.setMode id mode).node? location = system.node? location :=
  rfl

@[simp]
theorem node?_addFile (system : FileSystem) (file : File) (location : Location) :
    (system.addFile file).node? location = system.node? location :=
  rfl

@[simp]
theorem file?_put (system : FileSystem) (location : Location) (node : Node) (id : Nat) :
    (system.put location node).file? id = system.file? id :=
  rfl

@[simp]
theorem file?_cut (system : FileSystem) (location : Location) (id : Nat) :
    (system.cut location).file? id = system.file? id :=
  rfl

theorem file?_setContent (system : FileSystem) (id other : Nat) (content : Content) :
    (system.setContent id content).file? other =
      if id = other then (system.file? other).map fun file => ⟨lowered file.mode, content⟩
      else system.file? other := by
  simp only [file?, setContent, List.getElem?_modify]
  split <;> cases system.files[other]? <;> simp

theorem file?_setMode (system : FileSystem) (id other : Nat) (mode : Mode) :
    (system.setMode id mode).file? other =
      if id = other then (system.file? other).map fun file => { file with mode }
      else system.file? other := by
  simp only [file?, setMode, List.getElem?_modify]
  split <;> cases system.files[other]? <;> simp

theorem file?_addFile (system : FileSystem) (file : File) (id : Nat) :
    (system.addFile file).file? id =
      if id = system.files.length then some file else system.file? id := by
  simp only [file?, addFile, List.getElem?_append]
  split
  · next before => simp [Nat.ne_of_lt before]
  · next after =>
    by_cases equal : id = system.files.length
    · simp [equal]
    · have beyond : system.files[id]? = none := List.getElem?_eq_none (Nat.le_of_not_lt after)
      have positive : id - system.files.length ≠ 0 := by omega
      simp [equal, beyond, positive]

end FileSystem

end BundlePacker
