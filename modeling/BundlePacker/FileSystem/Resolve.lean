import BundlePacker.FileSystem.Basic
import BundlePacker.FileSystem.Fault

/-!
# Where a path leads

A path is resolved name by name from the root or from the working directory.  Links on the way are
replaced by their targets, and at most forty of them are followed.  The walk itself recurs on the
names that are left, and hands every link to a continuation; the continuation recurs on the number
of links that may still be followed.  What happens at the last name depends on what the caller is
about to do with it.  Where the working directory has been removed, a walk can end in it or climb
out of it, and only then it comes back to the tree.
-/

namespace BundlePacker.FileSystem

/-- What the caller of a resolution is about to do with the last name of the path. -/
inductive Purpose where
  /-- Act on the entry itself: a link is not followed, and slashes after it mean nothing. -/
  | entry
  /-- Act on what the path means: a link is followed. -/
  | target
  /-- Like `target`, but a new file may be made, which can not be written with a slash. -/
  | creation
deriving DecidableEq

/-- Where the resolution of a path ends. -/
inductive Spot where
  /-- At a node. -/
  | occupied (place : Place)
  /-- At a name that a directory does not hold. -/
  | vacant (directory : Location) (name : Name)
deriving DecidableEq

/-- The most bytes that a name can have. -/
def nameLimit : Nat :=
  255

/-- A path has to have fewer bytes than this. -/
def pathLimit : Nat :=
  4096

/-- How many links one resolution follows at most. -/
def linkLimit : Nat :=
  40

/-- The name by which each directory holds itself. -/
def selfName : Name :=
  [Path.dot]

/-- The name by which each directory holds the one above it. -/
def parentName : Name :=
  [Path.dot, Path.dot]

/-- How a resolution goes on at a link: from a directory, with names and a final slash or none. -/
abbrev Following :=
  Location → Path → List Name → Bool → Except Refusal Spot

/--
Follow names from a place.  The flag says whether a slash ends the path, so that only a directory
can be meant.  A removed directory holds nothing but itself and the directory above it.
-/
def descend (system : FileSystem) (purpose : Purpose) (following : Following) :
    Place → List Name → Bool → Except Refusal Spot
  | here, [], _ => .ok (.occupied here)
  | here, name :: rest, slash =>
    if name = selfName then
      descend system purpose following here rest slash
    else if name = parentName then
      descend system purpose following here.parent rest slash
    else if rest = [] ∧ slash ∧ purpose = .creation then
      .error .isDirectory
    else
      match here with
      | .removed _ _ => .error .notFound
      | .live location =>
        if nameLimit < name.length then
          .error .nameTooLong
        else
          let there := location ++ [name]
          match system.node? there with
          | none => if rest = [] then .ok (.vacant location name) else .error .notFound
          | some .directory => descend system purpose following (.live there) rest slash
          | some (.link target) =>
            if rest = [] ∧ purpose = .entry then .ok (.occupied (.live there))
            else following location target rest slash
          | some _ =>
            if rest = [] ∧ (purpose = .entry ∨ !slash) then .ok (.occupied (.live there))
            else .error .notDirectory

/-- Follow names from a place, through at most the given number of links. -/
def resolveFrom (system : FileSystem) (purpose : Purpose) :
    Nat → Place → List Name → Bool → Except Refusal Spot
  | 0 => descend system purpose fun _ _ _ _ => .error .tooManyLinks
  | links + 1 =>
    descend system purpose fun here target rest slash =>
      resolveFrom system purpose links
        (.live (if target.isAbsolute then [] else here))
        (target.names ++ rest)
        (if rest = [] then slash || target.endsInSlash else slash)

/-- The place where the resolution of a path starts. -/
def start (system : FileSystem) (path : Path) : Except Refusal Place :=
  if path.bytes = [] then .error .notFound
  else if pathLimit ≤ path.bytes.length then .error .nameTooLong
  else if path.isAbsolute then .ok (.live [])
  else .ok system.workingDirectory

/-- Where a path leads, for a given purpose. -/
def resolve (system : FileSystem) (purpose : Purpose) (path : Path) : Except Fault Spot :=
  if (0 : UInt8) ∈ path.bytes then
    .error .zeroByte
  else
    match system.start path with
    | .error refusal => .error (.refused refusal)
    | .ok here =>
      match resolveFrom system purpose linkLimit here path.names path.endsInSlash with
      | .error refusal => .error (.refused refusal)
      | .ok spot => .ok spot

/-- The place of the node that a path means, with links followed. -/
def locate (system : FileSystem) (path : Path) : Except Fault Place := do
  match ← system.resolve .target path with
  | .occupied place => .ok place
  | .vacant _ _ => .error (.refused .notFound)

/-- The place of the node that a path names: a last link is kept unless a slash follows it. -/
def locateEntry (system : FileSystem) (path : Path) : Except Fault Place := do
  let purpose := if path.endsInSlash then Purpose.target else Purpose.entry
  match ← system.resolve purpose path with
  | .occupied place => .ok place
  | .vacant _ _ => .error (.refused .notFound)

/-- Whether a path means anything, with links followed. -/
def pathExists (system : FileSystem) (path : Path) : Bool :=
  match system.locate path with
  | .ok _ => true
  | .error _ => false

/-- Whether a path means a directory, with links followed. -/
def isDirectory (system : FileSystem) (path : Path) : Bool :=
  match system.locate path with
  | .ok place => system.nodeAt? place = some .directory
  | .error _ => false

/-- The path of a location. -/
def pathOf (location : Location) : Path :=
  match location with
  | [] => ⟨[Path.slash]⟩
  | _ => ⟨location.flatMap fun name => Path.slash :: name⟩

/-- The path of the working directory. -/
def currentDirectory (system : FileSystem) : Except Fault Path :=
  match system.workingDirectory with
  | .live here => .ok (pathOf here)
  | .removed _ _ => .error (.refused .notFound)

/-- A resolution succeeds from a place from which the names of the path can be followed. -/
theorem resolve_eq_ok_iff {system : FileSystem} {purpose : Purpose} {path : Path} {spot : Spot} :
    system.resolve purpose path = .ok spot ↔
      (0 : UInt8) ∉ path.bytes ∧
        ∃ here, system.start path = .ok here ∧
          resolveFrom system purpose linkLimit here path.names path.endsInSlash = .ok spot := by
  simp only [resolve]
  constructor
  · intro ends
    split at ends
    · cases ends
    next clean =>
    split at ends
    · cases ends
    next here begins =>
    split at ends
    · cases ends
    next found reached =>
    cases ends
    exact ⟨clean, here, begins, reached⟩
  · rintro ⟨clean, here, begins, reached⟩
    simp [clean, begins, reached]

end BundlePacker.FileSystem
