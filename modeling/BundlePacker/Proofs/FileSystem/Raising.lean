import Mathlib
import BundlePacker.Proofs.FileSystem.Making
import BundlePacker.Proofs.Path.Higher

/-!
# Directories that are raised

Whoever asks for a directory asks for everything above it as well.  What was there before is left
alone, and whatever is new is a directory that the path or one above it means.  A path that means
something has directories above it only, so that nothing is missing there in the end.

The main statement is about a path for which a directory is asked and not refused.  The path means
something afterwards, and asking again changes nothing.  What it means is a directory unless it was
something else before: asking for a directory is satisfied with a file.
-/

namespace BundlePacker.FileSystem

variable {system first second third : FileSystem} {purpose : Purpose} {links : Nat} {here : Place}
  {slash slashBefore : Bool} {names rest : List Name} {spot : Spot} {path upper : Path}
  {paths : List Path} {location : Location}

/-! ## What is above a path -/

/-- Names with more names after them lead to a directory. -/
theorem Descends.exists_directory (wellFormed : system.WellFormed) (more : rest ≠ [])
    (follows : ∀ directory target names, system.node? directory = some .directory →
      following system purpose links directory target (names ++ rest) slash = .ok spot →
      ∃ place, following system .target links directory target names slashBefore =
          .ok (.occupied place) ∧ system.nodeAt? place = some .directory)
    (above : system.node? here.anchor = some .directory)
    (descends : Descends system purpose (following system purpose links) slash here (names ++ rest)
      spot) :
    ∃ place, Descends system .target (following system .target links) slashBefore here names
        (.occupied place) ∧ system.nodeAt? place = some .directory := by
  induction names generalizing here with
  | nil =>
      exact ⟨here, .done, nodeAt?_of_anchor above⟩
  | cons name names hypothesis =>
      rw [List.cons_append] at descends
      -- No descent ends at a name that is not the last one.
      generalize whole : names ++ rest = later at descends
      have further : later ≠ [] := by
        rintro rfl
        exact more (List.append_eq_nil_iff.mp whole).2
      cases descends with
      | self descends =>
          rcases hypothesis above (whole ▸ descends) with ⟨place, leads, stands⟩
          exact ⟨place, .self leads, stands⟩
      | parent descends =>
          rcases hypothesis (wellFormed.anchor_parent above) (whole ▸ descends) with
            ⟨place, leads, stands⟩
          exact ⟨place, .parent leads, stands⟩
      | inside enters isDirectory descends =>
          have inside : system.node? (Place.live _).anchor = some .directory := isDirectory
          rcases hypothesis inside (whole ▸ descends) with ⟨place, leads, stands⟩
          exact ⟨place, .inside enters.further isDirectory leads, stands⟩
      | followed enters isLink _ continues =>
          rcases follows _ _ names above (whole ▸ continues) with ⟨place, leads, stands⟩
          exact ⟨place, .followed enters.further isLink (by simp) leads, stands⟩
      | missing _ _ | kept _ _ _ | leaf _ _ _ _ _ =>
          exact absurd rfl further

theorem exists_directory_of_resolveFrom (wellFormed : system.WellFormed) (more : rest ≠ [])
    (above : system.node? here.anchor = some .directory)
    (ends : resolveFrom system purpose links here (names ++ rest) slash = .ok spot) :
    ∃ place, resolveFrom system .target links here names slashBefore = .ok (.occupied place) ∧
      system.nodeAt? place = some .directory := by
  simp only [resolveFrom_eq_ok_iff] at ends ⊢
  induction links generalizing here names slash slashBefore with
  | zero =>
      refine Descends.exists_directory wellFormed more ?_ above ends
      intro _ _ _ _ impossible
      cases impossible
  | succ links hypothesis =>
      refine Descends.exists_directory wellFormed more ?_ above ends
      intro directory target names isDirectory continues
      simp only [following, resolveFrom_eq_ok_iff, ← List.append_assoc] at continues ⊢
      refine hypothesis ?_ continues
      rw [Place.anchor]
      split
      · exact node?_root system
      · exact isDirectory

/-- What lies higher than a path that can be resolved is a directory. -/
theorem isDirectory_of_higher (wellFormed : system.WellFormed) (higher : upper.Higher path)
    (nonempty : upper.bytes ≠ []) (ends : system.resolve purpose path = .ok spot) :
    system.isDirectory upper = true := by
  rcases resolve_eq_ok_iff.mp ends with ⟨clean, here, begins, reached⟩
  rcases higher.names with ⟨rest, whole, last, member, -⟩
  rw [whole] at reached
  have above := start_holds wellFormed begins
  rcases exists_directory_of_resolveFrom wellFormed (List.ne_nil_of_mem member) above reached with
    ⟨place, leads, stands⟩
  have cleanAbove : (0 : UInt8) ∉ upper.bytes := fun inside => clean (higher.bytes.subset inside)
  have short : ¬ pathLimit ≤ upper.bytes.length := fun long =>
    Nat.not_le_of_lt (length_of_start begins) (long.trans higher.bytes.length_le)
  have beginsAbove : system.start upper = .ok here := by
    rw [start] at begins ⊢
    split at begins
    · cases begins
    split at begins
    · cases begins
    rwa [if_neg nonempty, if_neg short, higher.isAbsolute_eq nonempty]
  exact isDirectory_iff.mpr
    ⟨place, locate_eq_ok_iff.mpr (resolve_eq_ok_iff.mpr ⟨cleanAbove, here, beginsAbove, leads⟩),
      stands⟩

theorem pathExists_iff :
    system.pathExists path = true ↔ ∃ place, system.locate path = .ok place := by
  rw [pathExists]
  cases system.locate path <;> simp

theorem pathExists_of_isDirectory (isDirectory : system.isDirectory path = true) :
    system.pathExists path = true := by
  rcases isDirectory_iff.mp isDirectory with ⟨place, found, -⟩
  exact pathExists_iff.mpr ⟨place, found⟩

/-- Nothing is missing above a path that means something. -/
theorem isDirectory_of_pathExists (wellFormed : system.WellFormed)
    (there : system.pathExists path = true) (member : upper ∈ path.ancestors.tail)
    (nonempty : upper.bytes ≠ []) : system.isDirectory upper = true := by
  rcases pathExists_iff.mp there with ⟨place, found⟩
  exact isDirectory_of_higher wellFormed (Path.higher_of_mem_tail member nonempty) nonempty
    (locate_eq_ok_iff.mp found)

/-! ## What is new -/

/--
Whether one file system comes from another one by nothing but new directories, each of which one of
some paths means.
-/
structure Raised (paths : List Path) (first second : FileSystem) : Prop extends
    Grown first second where
  files : second.files = first.files
  new : ∀ location node, first.node? location = none → second.node? location = some node →
    node = .directory ∧ ∃ upper ∈ paths, second.locate upper = .ok (.live location)

namespace Raised

theorem refl (paths : List Path) (system : FileSystem) : Raised paths system system where
  toGrown := .refl system
  files := rfl
  new location node vacant stands := by
    rw [vacant] at stands
    cases stands

theorem trans (raised : Raised paths first second) (further : Raised paths second third) :
    Raised paths first third where
  toGrown := raised.toGrown.trans further.toGrown
  files := further.files.trans raised.files
  new location node vacant stands := by
    cases between : second.node? location with
    | none =>
        exact further.new location node between stands
    | some found =>
        rcases raised.new location found vacant between with ⟨rfl, upper, member, leads⟩
        rw [further.nodes _ _ between] at stands
        exact ⟨(Option.some.inj stands).symm, upper, member, further.toGrown.locate leads⟩

/-- A directory is raised where a path to it comes to a vacant name. -/
theorem put {directory : Location} {name : Name} (wellFormed : first.WellFormed)
    (member : path ∈ paths) (ends : first.resolve .entry path = .ok (.vacant directory name)) :
    Raised paths first (first.put (directory ++ [name]) .directory) where
  toGrown := .put (by simp) (resolve_holds wellFormed ends).2.1
  files := rfl
  new location node vacant stands := by
    rw [node?_put _ _ _ _ (by simp)] at stands
    split at stands
    · next own =>
      subst own
      cases stands
      exact ⟨rfl, path, member, locate_put_of_vacant wellFormed ends⟩
    · rw [vacant] at stands
      cases stands

variable (raised : Raised paths first second)

include raised

/-- What could be seen before can be seen still. -/
theorem view? {view : View} (seen : first.view? location = some view) :
    second.view? location = some view := by
  have files : second.file? = first.file? := by
    funext id
    rw [file?, file?, raised.files]
  rw [FileSystem.view?] at seen ⊢
  cases stands : first.node? location with
  | none =>
      rw [stands] at seen
      cases seen
  | some node =>
      rw [raised.nodes _ _ stands, files]
      rwa [stands] at seen

theorem node?_eq_file_iff {id : Nat} :
    second.node? location = some (.file id) ↔ first.node? location = some (.file id) := by
  refine ⟨fun stands => ?_, raised.nodes _ _⟩
  cases before : first.node? location with
  | none =>
      cases (raised.new _ _ before stands).1
  | some node =>
      exact (raised.nodes _ _ before).symm.trans stands

/-- What can be seen only later is a directory that one of the paths means. -/
theorem of_view?_eq_none {view : View} (filed : first.Filed) (filedSecond : second.Filed)
    (vacant : first.view? location = none) (seen : second.view? location = some view) :
    view = .directory ∧ ∃ upper ∈ paths, second.locate upper = .ok (.live location) := by
  have missing := filed.view?_eq_none_iff.mp vacant
  cases stands : second.node? location with
  | none =>
      rw [filedSecond.view?_eq_none_iff.mpr stands] at seen
      cases seen
  | some node =>
      rcases raised.new _ _ missing stands with ⟨rfl, upper, member, leads⟩
      rw [view?_eq_directory_iff.mpr stands] at seen
      exact ⟨(Option.some.inj seen).symm, upper, member, leads⟩

/-- No name of a file is new, and none is gone. -/
theorem sameFile_iff {other : Location} :
    second.SameFile location other ↔ first.SameFile location other := by
  simp only [SameFile, raised.node?_eq_file_iff]

end Raised

/-- Whether a file system is well-formed and has been raised from another one. -/
def Raises (paths : List Path) (first second : FileSystem) : Prop :=
  second.WellFormed ∧ Raised paths first second

theorem Raises.keeps_makeDirectory (first : FileSystem) (member : path ∈ paths) :
    Keeps (Raises paths first) (makeDirectory path) := by
  refine keeps_makeDirectory_of_put ?_
  rintro system directory name ⟨wellFormed, raised⟩ ends
  rcases resolve_holds wellFormed ends with ⟨stands, vacant, isName⟩
  exact ⟨wellFormed.put stands vacant isName trivial, raised.trans (.put wellFormed member ends)⟩

theorem Raises.keptByMaking (first : FileSystem) (inside : path.ancestors ⊆ paths) :
    KeptByMaking (Raises paths first) path :=
  fun _ member _ => keeps_makeDirectory first (inside member)

/-- Where the directory of a path is made ready, only what lies above the path is new. -/
theorem Raises.keeps_prepareFor (first : FileSystem) (path : Path) :
    Keeps (Raises path.ancestors.tail first) (prepareFor path) :=
  FileSystem.keeps_prepareFor fun _ parent =>
    keptByMaking first (Path.ancestors_subset_of_parent? parent)

/-! ## Directories that are asked for -/

theorem ensureDirectory_of_pathExists (there : system.pathExists path = true) :
    ensureDirectory path system = .ok () system := by
  rw [ensureDirectory, if_pos there]

/-- Asking for a directory comes to nothing, or the directory has been made. -/
theorem ensureDirectory_cases (wellFormed : first.WellFormed) (nonempty : path.bytes ≠ [])
    (ran : ensureDirectory path first = .ok () second) :
    first.pathExists path = true ∧ second = first ∨
      first.pathExists path = false ∧ second.isDirectory path = true := by
  rw [ensureDirectory] at ran
  split at ran
  · next there =>
    cases ran
    exact .inl ⟨there, rfl⟩
  · next absent =>
    exact .inr ⟨by simpa using absent, isDirectory_of_makeDirectories wellFormed nonempty ran⟩

/--
When a directory has been asked for and not been refused, its path means something, and a directory
if it did not mean anything else before.  Everything above is a directory, and so is all that is
new; what was there before is as it was.  Asking again changes nothing.
-/
theorem ensureDirectory_ok (wellFormed : first.WellFormed) (nonempty : path.bytes ≠ [])
    (ran : ensureDirectory path first = .ok () second) :
    second.pathExists path = true ∧
      (second.isDirectory path = true ↔
        (first.pathExists path = true → first.isDirectory path = true)) ∧
      (∀ upper ∈ path.ancestors.tail, upper.bytes ≠ [] → second.isDirectory upper = true) ∧
      Raised path.ancestors first second ∧
      ensureDirectory path second = .ok () second := by
  have raises : Raises path.ancestors first second :=
    (Raises.keptByMaking first (List.Subset.refl _)).ensureDirectory.of_ok
      ⟨wellFormed, .refl _ first⟩ ran
  have there : second.pathExists path = true := by
    rcases ensureDirectory_cases wellFormed nonempty ran with ⟨there, rfl⟩ | ⟨-, made⟩
    · exact there
    · exact pathExists_of_isDirectory made
  refine ⟨there, ?_, fun upper => isDirectory_of_pathExists raises.1 there, raises.2,
    ensureDirectory_of_pathExists there⟩
  rcases ensureDirectory_cases wellFormed nonempty ran with ⟨before, rfl⟩ | ⟨absent, made⟩
  · simp [before]
  · simp [absent, made]

/-! ## A directory beside a file -/

/-- A file system with a file. -/
def shelf : FileSystem :=
  stateAfter (writeFile (.ofString "/sur") (.plain [0x78])) FileSystem.empty

theorem wellFormed_shelf : shelf.WellFormed :=
  keeps_writeFile _ _ _ wellFormed_empty

/-- Whether a directory that is asked for is not refused. -/
def ensures (system : FileSystem) (path : Path) : Bool :=
  match ensureDirectory path system with
  | .ok _ _ => true
  | .error _ _ => false

theorem exists_of_ensures (ensured : system.ensures path = true) :
    ∃ last, ensureDirectory path system = .ok () last := by
  rw [ensures] at ensured
  split at ensured
  · next last ran =>
    exact ⟨last, ran⟩
  · cases ensured

/-- A directory is asked for with a missing one above it. -/
theorem ensureDirectory_ok_shelf :
    ∃ last, ensureDirectory (.ofString "/lib/a") shelf = .ok () last ∧
      last.isDirectory (.ofString "/lib/a") = true ∧ last.isDirectory (.ofString "/lib") = true ∧
      last.view? [Utf8.ofString "sur"] = some (.file ⟨freshMode, .plain [0x78]⟩) ∧
      ensureDirectory (.ofString "/lib/a") last = .ok () last := by
  rcases exists_of_ensures (by cbv : shelf.ensures (.ofString "/lib/a") = true) with ⟨last, ran⟩
  rcases ensureDirectory_ok wellFormed_shelf (by decide) ran with
    ⟨-, isDirectory, above, raised, again⟩
  have absent : shelf.pathExists (.ofString "/lib/a") = false := by
    cbv
  exact ⟨last, ran, isDirectory.mpr (by simp [absent]), above _ (by decide) (by decide),
    raised.view? (by cbv), again⟩

/-- Whoever asks for a directory gets along with a file. -/
theorem ensureDirectory_admits_file :
    shelf.WellFormed ∧ (Path.ofString "/sur").bytes ≠ [] ∧
      ensureDirectory (.ofString "/sur") shelf = .ok () shelf ∧
      shelf.isDirectory (.ofString "/sur") = false :=
  ⟨wellFormed_shelf, by decide, ensureDirectory_of_pathExists (by cbv), by cbv⟩

end BundlePacker.FileSystem
