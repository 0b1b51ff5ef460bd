import BundlePacker.FileSystem.Preservation
import BundlePacker.Proofs.FileSystem.Files
import BundlePacker.Proofs.FileSystem.Lexical
import BundlePacker.Proofs.Path.Names

/-!
# Changes that stay below a directory

A change stays below a directory when every node outside is what it was, and when a file loses its
content only if one of its names lies below the directory.  Where there are no links, the names of a
path say whether a call on it stays below a directory: what the call writes or removes is at the
location that the names lead to.  Making a directory may also come upon locations outside, as long
as there are directories already.

The main statements are that the calls which make, remove and write keep a file system confined in
this sense, under conditions on the names of their paths alone.
-/

namespace BundlePacker.FileSystem

/-- Whether a location lies strictly below another one. -/
def Inside (top location : Location) : Prop :=
  top <+: location ∧ location ≠ top

instance (top location : Location) : Decidable (Inside top location) :=
  inferInstanceAs (Decidable (top <+: location ∧ location ≠ top))

/-- Whether everything that differs between two file systems lies strictly below a location. -/
structure ConfinedTo (top : Location) (before after : FileSystem) : Prop where
  nodes : ∀ location, ¬ Inside top location → after.node? location = before.node? location
  files : ∀ id file, before.file? id = some file →
    after.file? id = some file ∨
      ∃ location, Inside top location ∧ before.node? location = some (.file id)

/-- What every state has in common that has come from a file system below a location. -/
structure Contained (home top : Location) (first system : FileSystem) : Prop where
  linkFree : system.LinkFree
  standsFor : system.workingDirectory.StandsFor home
  confined : ConfinedTo top first system
  /-- Every name of an old file is an old name. -/
  names : ∀ location id, system.node? location = some (.file id) → id < first.files.length →
    first.node? location = some (.file id)
  grown : first.files.length ≤ system.files.length

/--
Whether each location that names lead through lies below a location, or is that of a directory.
-/
def ClearWay (top : Location) (first : FileSystem) (here : Location) (names : List Name) : Prop :=
  ∀ before name, before ++ [name] <+: names → name ≠ selfName → name ≠ parentName →
    Inside top (lexical here (before ++ [name])) ∨
      first.node? (lexical here (before ++ [name])) = some .directory

/-- Whether what has been opened may be written to: a new file, or one with a name below. -/
def Owned (top : Location) (first : FileSystem) : Handle → Prop
  | .sink => True
  | .file id => first.files.length ≤ id ∨
      ∃ location, Inside top location ∧ first.node? location = some (.file id)

variable {home top location : Location} {first system : FileSystem} {path : Path}

theorem Inside.ne_nil (inside : Inside top location) : location ≠ [] := by
  rintro rfl
  exact inside.2 (List.prefix_nil.mp inside.1).symm

theorem Inside.below {other : Location} (inside : Inside top location)
    (below : location <+: other) : Inside top other := by
  refine ⟨inside.1.trans below, ?_⟩
  rintro rfl
  exact inside.2 (below.eq_of_length (Nat.le_antisymm below.length_le inside.1.length_le))

theorem inside_concat {directory : Location} (below : top <+: directory) (name : Name) :
    Inside top (directory ++ [name]) := by
  refine ⟨below.trans (List.prefix_append ..), ?_⟩
  rintro rfl
  exact not_prefix_directory directory name below

theorem ConfinedTo.refl (top : Location) (system : FileSystem) : ConfinedTo top system system :=
  ⟨fun _ _ => rfl, fun _ _ content => .inl content⟩

namespace Contained

theorem refl (linkFree : system.LinkFree) (standsFor : system.workingDirectory.StandsFor home) :
    Contained home top system system :=
  ⟨linkFree, standsFor, .refl top system, fun _ _ stands _ => stands, Nat.le_refl _⟩

/-! ## Elementary changes -/

variable (contained : Contained home top first system)

include contained

/-- Putting something below that is no name of an old file. -/
theorem put (inside : Inside top location) {node : Node} (noLink : ∀ target, node ≠ .link target)
    (new : ∀ id, node = .file id → first.files.length ≤ id) :
    Contained home top first (system.put location node) where
  linkFree other target := by
    rw [node?_put _ _ _ _ inside.ne_nil]
    split
    · exact fun same => noLink target (Option.some.inj same)
    · exact contained.linkFree other target
  standsFor := contained.standsFor
  confined := by
    refine ⟨?_, contained.confined.files⟩
    intro other outside
    rw [node?_put _ _ _ _ inside.ne_nil, if_neg]
    · exact contained.confined.nodes other outside
    · rintro rfl
      exact outside inside
  names other id stands old := by
    rw [node?_put _ _ _ _ inside.ne_nil] at stands
    split at stands
    · have late := new id (Option.some.inj stands)
      omega
    · exact contained.names other id stands old
  grown := contained.grown

/-- Taking nodes away below. -/
theorem remove {nodes : Location → Prop} [DecidablePred nodes] {place : Place}
    (standsFor : place.StandsFor home)
    (inside : ∀ other, other ≠ [] → nodes other → Inside top other) {next : FileSystem}
    (taken : ∀ other, other ≠ [] →
      next.node? other = if nodes other then none else system.node? other)
    (files : next.files = system.files) (places : next.workingDirectory = place) :
    Contained home top first next where
  linkFree other target := by
    by_cases root : other = []
    · simp [root]
    · rw [taken other root]
      split
      · simp
      · exact contained.linkFree other target
  standsFor := places ▸ standsFor
  confined := by
    refine ⟨?_, ?_⟩
    · intro other outside
      by_cases root : other = []
      · simp [root]
      · rw [taken other root, if_neg fun gone => outside (inside other root gone)]
        exact contained.confined.nodes other outside
    · intro id file content
      rw [file?, files]
      exact contained.confined.files id file content
  names other id stands old := by
    by_cases root : other = []
    · simp [root] at stands
    · rw [taken other root] at stands
      split at stands
      · cases stands
      · exact contained.names other id stands old
  grown := files ▸ contained.grown

theorem cut (inside : Inside top location) : Contained home top first (system.cut location) :=
  contained.remove (contained.standsFor.without inside.ne_nil)
    (fun _ _ below => inside.below below) (fun _ _ => node?_cut _ _ _ inside.ne_nil) rfl rfl

theorem clear (inside : Inside top location) : Contained home top first (system.clear location) :=
  contained.remove (contained.standsFor.withoutBelow location)
    (fun _ _ below => inside.below below.1) (fun _ root => node?_clear _ _ _ root) rfl rfl

/-- Changing what an owned file is. -/
theorem alterFile {id : Nat} (owned : Owned top first (.file id)) {next : FileSystem}
    (nodes : ∀ other, next.node? other = system.node? other)
    (places : next.workingDirectory = system.workingDirectory)
    (files : ∀ other, other ≠ id → next.file? other = system.file? other)
    (length : next.files.length = system.files.length) : Contained home top first next where
  linkFree other target := nodes other ▸ contained.linkFree other target
  standsFor := places ▸ contained.standsFor
  confined := by
    refine ⟨fun other outside => (nodes other).trans (contained.confined.nodes other outside), ?_⟩
    intro other file content
    by_cases same : other = id
    · subst same
      rcases owned with new | below
      · have known : other < first.files.length := (List.getElem?_eq_some_iff.mp content).1
        omega
      · exact .inr below
    · rw [files other same]
      exact contained.confined.files other file content
  names other inner stands old := contained.names other inner (nodes other ▸ stands) old
  grown := length ▸ contained.grown

theorem setContent {id : Nat} (owned : Owned top first (.file id)) (content : Content) :
    Contained home top first (system.setContent id content) := by
  refine contained.alterFile owned (fun _ => rfl) rfl ?_ (by simp [FileSystem.setContent])
  intro other differs
  rw [file?_setContent, if_neg (Ne.symm differs)]

theorem setMode {id : Nat} (owned : Owned top first (.file id)) (mode : Mode) :
    Contained home top first (system.setMode id mode) := by
  refine contained.alterFile owned (fun _ => rfl) rfl ?_ (by simp [FileSystem.setMode])
  intro other differs
  rw [file?_setMode, if_neg (Ne.symm differs)]

theorem addFile (file : File) : Contained home top first (system.addFile file) where
  linkFree := contained.linkFree
  standsFor := contained.standsFor
  confined := by
    refine ⟨contained.confined.nodes, ?_⟩
    intro id old content
    have known : id < system.files.length :=
      Nat.lt_of_lt_of_le (List.getElem?_eq_some_iff.mp content).1 contained.grown
    rw [file?_addFile, if_neg (Nat.ne_of_lt known)]
    exact contained.confined.files id old content
  names := contained.names
  grown := by
    have longer := contained.grown
    simp only [FileSystem.addFile, List.length_append, List.length_singleton]
    omega

/-! ## Where calls end -/

/-- What a path with its destination below leads to, if it is in the tree, lies below. -/
theorem inside_of_resolve {purpose : Purpose} {spot : Spot}
    (ends : system.resolve purpose path = .ok spot) (there : spot.place = .live location)
    (inside : Inside top (destination home path)) : Inside top location := by
  have reached := standsFor_of_resolve contained.linkFree contained.standsFor ends
  rw [there] at reached
  exact reached ▸ inside

/-- A directory that is missing on a clear way was below. -/
theorem inside_of_vacant {purpose : Purpose} {directory : Location} {name : Name}
    (ends : system.resolve purpose path = .ok (.vacant directory name))
    (way : ClearWay top first (origin home path) path.names) :
    Inside top (directory ++ [name]) := by
  rcases last_missing_of_resolve contained.linkFree ends with
    ⟨vacant, before, shape, neSelf, neParent⟩
  have reached : directory ++ [name] = lexical (origin home path) path.names :=
    standsFor_of_resolve contained.linkFree contained.standsFor ends
  rw [reached, shape]
  rcases way before name (shape ▸ List.prefix_rfl) neSelf neParent with inside | stood
  · exact inside
  · -- What stood outside stands there still.
    by_cases outside : Inside top (lexical (origin home path) (before ++ [name]))
    · exact outside
    · rw [← contained.confined.nodes _ outside, ← shape, ← reached, vacant] at stood
      cases stood

end Contained

/-! ## Calls -/

open Call (keeps_alter)

theorem ClearWay.above {here : Location} {names shorter : List Name}
    (way : ClearWay top first here names) (begins : shorter <+: names) :
    ClearWay top first here shorter :=
  fun before name inner => way before name (inner.trans begins)

/-- Below the root every way is clear. -/
theorem clearWay_root (first : FileSystem) (here : Location) (names : List Name) :
    ClearWay [] first here names := by
  intro before name _ neSelf neParent
  left
  rw [lexical_concat neSelf neParent]
  exact inside_concat List.nil_prefix name

theorem keeps_contained_makeDirectory
    (way : ClearWay top first (origin home path) path.names) :
    Keeps (Contained home top first) (makeDirectory path) := by
  refine keeps_makeDirectory_of_put fun system directory name contained ends => ?_
  exact contained.put (contained.inside_of_vacant ends way) (by simp) (by simp)

/-- Directories that are made on a clear way, or above its end, are made below. -/
theorem Contained.keptByMaking {whole : Path} (above : Path.Above path whole)
    (way : ClearWay top first (origin home whole) whole.names) :
    KeptByMaking (Contained home top first) path := by
  intro upper member nonempty
  have higher := above.of_mem_ancestors member
  have begins : origin home upper = origin home whole := by
    rw [origin, origin, higher.starts nonempty]
  apply keeps_contained_makeDirectory
  rw [begins]
  exact way.above higher.names

section

variable (inside : Inside top (destination home path))

include inside

theorem keeps_contained_removeFile : Keeps (Contained home top first) (removeFile path) := by
  refine keeps_alter fun system next contained removed => ?_
  rcases exists_of_bind_eq_ok removed with ⟨spot, ends, removed⟩
  split at removed
  · cases removed
  · cases removed
  · split at removed
    · cases removed
    split at removed
    · cases removed
    · cases removed
      exact contained.cut (contained.inside_of_resolve ends rfl inside)

theorem keeps_contained_removeDirectory :
    Keeps (Contained home top first) (removeDirectory path) := by
  refine keeps_alter fun system next contained removed => ?_
  rcases exists_of_bind_eq_ok removed with ⟨spot, ends, removed⟩
  split at removed
  · cases removed
  split at removed
  · cases removed
  split at removed
  · cases removed
  split at removed
  · cases removed
  split at removed
  · cases removed
  split at removed
  · cases removed
  split at removed
  · cases removed
  · cases removed
    exact contained.cut (contained.inside_of_resolve ends rfl inside)

theorem keeps_contained_emptyDirectory :
    Keeps (Contained home top first) (emptyDirectory path) := by
  refine keeps_alter fun system next contained emptied => ?_
  rcases exists_of_bind_eq_ok emptied with ⟨place, found, emptied⟩
  have ends := locate_eq_ok_iff.mp found
  split at emptied
  · cases emptied
    exact contained
  · split at emptied
    · cases emptied
      exact contained.clear (contained.inside_of_resolve ends rfl inside)
    · cases emptied

/-- What is removed at a destination below is removed below. -/
theorem Contained.keptByRemoving : KeptByRemoving (Contained home top first) path :=
  ⟨keeps_contained_removeFile inside, keeps_contained_removeDirectory inside,
    keeps_contained_emptyDirectory inside⟩

/-- What is opened at a destination below may be written to. -/
theorem Contained.of_opens (contained : Contained home top first system) {handle : Handle}
    {next : FileSystem} (opens : Opens system path (.ok handle next)) :
    Contained home top first next ∧ Owned top first handle := by
  cases opens with
  | made ends =>
      have there := contained.inside_of_resolve ends rfl inside
      refine ⟨(contained.addFile _).put there (by simp) ?_, .inl contained.grown⟩
      intro id same
      cases same
      exact contained.grown
  | emptied ends stands =>
      rename_i location id
      have there := contained.inside_of_resolve ends rfl inside
      have owned : Owned top first (.file id) := by
        by_cases old : id < first.files.length
        · exact .inr ⟨location, there, contained.names location id stands old⟩
        · exact .inl (Nat.le_of_not_lt old)
      exact ⟨contained.setContent owned _, owned⟩
  | swallowed ends stands =>
      exact ⟨contained, trivial⟩

theorem keeps_contained_openToWrite : Keeps (Contained home top first) (openToWrite path) := by
  intro system contained
  have opens := opens_openToWrite system path
  rw [stateAfter]
  split
  · next handle next ran =>
    rw [ran] at opens
    exact (contained.of_opens inside opens).1
  · next fault next ran =>
    rw [ran] at opens
    cases opens
    exact contained

omit inside in
theorem keeps_contained_write {handle : Handle} (owned : Owned top first handle)
    (content : Content) : Keeps (Contained home top first) (write handle content) := by
  rw [write.eq_def]
  split
  · exact Keeps.pure _
  · exact Keeps.pure _
  · refine keeps_alter fun system next contained written => ?_
    cases written
    exact contained.setContent owned content

omit inside in
theorem keeps_contained_grant {handle : Handle} (owned : Owned top first handle) (mode : Mode) :
    Keeps (Contained home top first) (grant handle mode) := by
  cases handle with
  | sink =>
      exact Keeps.pure _
  | file id =>
      rw [grant]
      refine keeps_alter fun system next contained granted => ?_
      cases granted
      exact contained.setMode owned mode

/-- What is written to a destination below is written below. -/
theorem Contained.keptByWriting : KeptByWriting (Contained home top first) path := by
  have owned : ∀ system handle next, Contained home top first system →
      openToWrite path system = .ok handle next → Owned top first handle := by
    intro system handle next contained ran
    exact (contained.of_opens inside (opens_of_ok ran)).2
  refine ⟨keeps_contained_openToWrite inside, ?_, ?_⟩
  · intro system handle next contained ran content
    exact keeps_contained_write (owned system handle next contained ran) content
  · intro system handle next contained ran mode
    exact keeps_contained_grant (owned system handle next contained ran) mode

end

end BundlePacker.FileSystem
