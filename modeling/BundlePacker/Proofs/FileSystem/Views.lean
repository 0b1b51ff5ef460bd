import BundlePacker.Proofs.FileSystem.Changes

/-!
# What a path shows

What stands at the end of a path is seen as a view, and that is all that most callers ask of it.
File systems that look alike are interchangeable for them: a path leads to the same place in both
and shows the same.  The same is true of a file system before and after a change at a location that
the path passes by.
-/

namespace BundlePacker.FileSystem

variable {system first second : FileSystem} {location other : Location} {path : Path}
  {purpose : Purpose}

/-! ## Views -/

/-- Whether every name of a file means a file that is there. -/
def Filed (system : FileSystem) : Prop :=
  ∀ location id, system.node? location = some (.file id) → id < system.files.length

theorem WellFormed.filed (wellFormed : system.WellFormed) : system.Filed :=
  fun location _ stands => wellFormed.fits location _ stands

theorem Filed.exists_file {id : Nat} (filed : system.Filed)
    (stands : system.node? location = some (.file id)) : ∃ file, system.file? id = some file :=
  ⟨_, List.getElem?_eq_getElem (filed location id stands)⟩

theorem view?_eq_file_iff {file : File} :
    system.view? location = some (.file file) ↔
      ∃ id, system.node? location = some (.file id) ∧ system.file? id = some file := by
  rw [view?]
  split <;> simp_all

theorem view?_eq_directory_iff :
    system.view? location = some .directory ↔ system.node? location = some .directory := by
  rw [view?]
  split <;> simp_all

theorem view?_eq_link_iff {target : Path} :
    system.view? location = some (.link target) ↔
      system.node? location = some (.link target) := by
  rw [view?]
  split <;> simp_all

theorem view?_eq_special_iff {special : Special} :
    system.view? location = some (.special special) ↔
      system.node? location = some (.special special) := by
  rw [view?]
  split <;> simp_all

theorem Filed.view?_eq_none_iff (filed : system.Filed) :
    system.view? location = none ↔ system.node? location = none := by
  rw [view?]
  split
  · simp_all
  · simp_all
  · next id stands =>
    rcases filed.exists_file stands with ⟨file, content⟩
    simp [content, stands]
  · simp_all
  · simp_all

theorem sameFile_self_iff (filed : system.Filed) :
    system.SameFile location location ↔ ∃ file, system.view? location = some (.file file) := by
  constructor
  · rintro ⟨id, stands, -⟩
    rcases filed.exists_file stands with ⟨file, content⟩
    exact ⟨file, view?_eq_file_iff.mpr ⟨id, stands, content⟩⟩
  · rintro ⟨file, seen⟩
    rcases view?_eq_file_iff.mp seen with ⟨id, stands, -⟩
    exact ⟨id, stands, stands⟩

/-! ## File systems that look alike -/

/-- Whether two nodes are the same to a path.  Which file a name means is left out. -/
inductive Node.Similar : Option Node → Option Node → Prop
  | same (node : Option Node) : Similar node node
  | files (one other : Nat) : Similar (some (.file one)) (some (.file other))

theorem Alike.similar (alike : Alike first second) (filed : first.Filed)
    (filedSecond : second.Filed) (location : Location) :
    Node.Similar (first.node? location) (second.node? location) := by
  have views := alike.views location
  cases stands : first.node? location with
  | none =>
      rw [filed.view?_eq_none_iff.mpr stands] at views
      rw [filedSecond.view?_eq_none_iff.mp views.symm]
      exact .same _
  | some node =>
      cases node with
      | directory =>
          rw [view?_eq_directory_iff.mpr stands] at views
          rw [view?_eq_directory_iff.mp views.symm]
          exact .same _
      | link target =>
          rw [view?_eq_link_iff.mpr stands] at views
          rw [view?_eq_link_iff.mp views.symm]
          exact .same _
      | special special =>
          rw [view?_eq_special_iff.mpr stands] at views
          rw [view?_eq_special_iff.mp views.symm]
          exact .same _
      | file id =>
          rcases filed.exists_file stands with ⟨file, content⟩
          rw [view?_eq_file_iff.mpr ⟨id, stands, content⟩] at views
          rcases view?_eq_file_iff.mp views.symm with ⟨other, standsOther, -⟩
          rw [standsOther]
          exact .files id other

/-- Two names are one file in file systems that look alike only together. -/
theorem alike_of_views (filed : first.Filed) (filedSecond : second.Filed)
    (views : ∀ location, first.view? location = second.view? location)
    (names : ∀ one other, one ≠ other → (first.SameFile one other ↔ second.SameFile one other))
    (places : first.workingDirectory = second.workingDirectory) : Alike first second := by
  refine ⟨views, ?_, places⟩
  intro one other
  by_cases same : one = other
  · rw [same, sameFile_self_iff filed, sameFile_self_iff filedSecond, views]
  · exact names one other same

section Similar

variable (similar : ∀ location, Node.Similar (first.node? location) (second.node? location))

include similar

theorem descend_of_similar (following : Following) :
    descend first purpose following = descend second purpose following := by
  funext here names slash
  induction names generalizing here with
  | nil =>
      simp [descend]
  | cons name rest hypothesis =>
      cases here with
      | removed between above =>
          simp only [descend, hypothesis]
      | live directory =>
          simp only [descend, hypothesis]
          have there := similar (directory ++ [name])
          generalize first.node? (directory ++ [name]) = one at there ⊢
          generalize second.node? (directory ++ [name]) = other at there ⊢
          cases there <;> rfl

theorem lookups_of_similar (tracing : Tracing) :
    lookups first purpose tracing = lookups second purpose tracing := by
  funext here names slash
  induction names generalizing here with
  | nil =>
      simp [lookups]
  | cons name rest hypothesis =>
      cases here with
      | removed between above =>
          simp only [lookups, hypothesis]
      | live directory =>
          simp only [lookups, hypothesis]
          have there := similar (directory ++ [name])
          generalize first.node? (directory ++ [name]) = one at there ⊢
          generalize second.node? (directory ++ [name]) = other at there ⊢
          cases there <;> rfl

theorem resolveFrom_of_similar (purpose : Purpose) (links : Nat) :
    resolveFrom first purpose links = resolveFrom second purpose links ∧
      lookupsFrom first purpose links = lookupsFrom second purpose links := by
  induction links with
  | zero =>
      exact ⟨descend_of_similar similar _, lookups_of_similar similar _⟩
  | succ links hypothesis =>
      simp only [resolveFrom, lookupsFrom, hypothesis, descend_of_similar similar,
        lookups_of_similar similar, and_self]

end Similar

namespace Alike

variable (alike : Alike first second) (filed : first.Filed) (filedSecond : second.Filed)

include alike filed filedSecond

/-- A path leads to the same place in file systems that look alike, and by the same way. -/
theorem resolve_eq (purpose : Purpose) (path : Path) :
    first.resolve purpose path = second.resolve purpose path ∧
      first.lookedUp purpose path = second.lookedUp purpose path := by
  rcases resolveFrom_of_similar (alike.similar filed filedSecond) purpose linkLimit with
    ⟨resolved, looked⟩
  simp only [resolve, lookedUp, start, alike.places, resolved, looked, and_self]

theorem locate_eq (path : Path) : first.locate path = second.locate path := by
  rw [locate, locate, (alike.resolve_eq filed filedSecond .target path).1]

theorem passesThrough_iff (purpose : Purpose) (path : Path) (location : Location) :
    first.PassesThrough purpose path location ↔ second.PassesThrough purpose path location := by
  rw [PassesThrough, PassesThrough, (alike.resolve_eq filed filedSecond purpose path).2]

end Alike

/-! ## What is shown -/

/-- What can be seen at a place.  A removed directory is seen as a directory. -/
def viewAt? (system : FileSystem) : Place → Option View
  | .live location => system.view? location
  | .removed _ _ => some .directory

/-- What a path shows, with links followed. -/
def shown (system : FileSystem) (path : Path) : Except Fault (Option View) :=
  (system.locate path).map system.viewAt?

theorem viewAt?_eq_directory_iff {place : Place} :
    system.viewAt? place = some .directory ↔ system.nodeAt? place = some .directory := by
  cases place with
  | live here => exact view?_eq_directory_iff
  | removed between above => exact iff_of_true rfl rfl

theorem viewAt?_eq_file_iff {place : Place} {file : File} :
    system.viewAt? place = some (.file file) ↔
      ∃ id, system.nodeAt? place = some (.file id) ∧ system.file? id = some file := by
  cases place with
  | live here => exact view?_eq_file_iff
  | removed between above => simp [viewAt?, nodeAt?]

theorem Alike.shown_eq (alike : Alike first second) (filed : first.Filed)
    (filedSecond : second.Filed) (path : Path) : first.shown path = second.shown path := by
  have seen : first.viewAt? = second.viewAt? := by
    funext place
    cases place with
    | live here => exact alike.views here
    | removed between above => rfl
  rw [shown, shown, alike.locate_eq filed filedSecond, seen]

theorem Alike.pathExists_eq (alike : Alike first second) (filed : first.Filed)
    (filedSecond : second.Filed) (path : Path) :
    first.pathExists path = second.pathExists path := by
  rw [pathExists, pathExists, alike.locate_eq filed filedSecond]

/-- Whether a file system has come from another one by a change at and below a location. -/
structure ChangedAt (location : Location) (move : Place → Place) (first second : FileSystem) :
    Prop where
  moves : Moves location move
  places : second.workingDirectory = move first.workingDirectory
  nodes : ∀ other, ¬ location <+: other → second.node? other = first.node? other
  views : ∀ other, ¬ location <+: other → second.view? other = first.view? other
  directories : ∀ place, first.nodeAt? place = some .directory →
    second.nodeAt? (move place) = some .directory

namespace ChangedAt

variable {move : Place → Place}

/-- A path that passes by a change shows what it showed before. -/
theorem shown_eq (changed : ChangedAt location move first second) (wellFormed : first.WellFormed)
    (passesBy : ¬ first.PassesThrough .target path location) :
    second.shown path = first.shown path := by
  have seen := seenAlike_of_passing_by (fun entry _ => changed.nodes entry) passesBy
  have resolved := (resolve_moved changed.moves changed.places seen).1
  rw [shown, shown]
  cases found : first.locate path with
  | ok place =>
      have ends := locate_eq_ok_iff.mp found
      have after : second.locate path = .ok (move place) := by
        rw [locate_eq_ok_iff, resolved, ends]
        rfl
      rw [after]
      refine congrArg Except.ok ?_
      rcases resolve_mem_lookedUp wellFormed ends with directory | ⟨entry, member, same⟩
      · exact (viewAt?_eq_directory_iff.mpr (changed.directories place directory)).trans
          (viewAt?_eq_directory_iff.mpr directory).symm
      · have outside := not_prefix_of_passing_by passesBy member
        cases same
        rw [changed.moves.stays entry outside]
        exact changed.views entry outside
  | error fault =>
      have after : second.locate path = .error fault := by
        rw [locate] at found ⊢
        rw [resolved]
        cases ends : first.resolve .target path with
        | error cause =>
            rw [ends] at found
            exact found
        | ok spot =>
            rw [ends] at found
            cases spot with
            | occupied place => cases found
            | vacant directory name => exact found
      rw [after]
      rfl

/-- A path that passes by a change passes by what it passed by before. -/
theorem passesThrough_iff (changed : ChangedAt location move first second)
    (passesBy : ¬ first.PassesThrough purpose path location) (other : Location) :
    second.PassesThrough purpose path other ↔ first.PassesThrough purpose path other := by
  have seen := seenAlike_of_passing_by (fun entry _ => changed.nodes entry) passesBy
  rw [PassesThrough, PassesThrough, (resolve_moved changed.moves changed.places seen).2]

end ChangedAt

/-! ## Taking away -/

theorem view?_cut (system : FileSystem) (belowRoot : location ≠ []) (other : Location) :
    (system.cut location).view? other =
      if location <+: other then none else system.view? other := by
  rw [view?, node?_cut _ _ _ belowRoot]
  by_cases inside : location <+: other
  · rw [if_pos inside, if_pos inside]
  · rw [if_neg inside, if_neg inside]
    rfl

theorem sameFile_cut (belowRoot : location ≠ []) {one other : Location} :
    (system.cut location).SameFile one other ↔
      (¬ location <+: one ∧ ¬ location <+: other) ∧ system.SameFile one other := by
  simp only [SameFile, node?_cut _ _ _ belowRoot]
  by_cases insideOne : location <+: one <;> by_cases insideOther : location <+: other <;>
    simp [insideOne, insideOther]

theorem Filed.cut (filed : system.Filed) (belowRoot : location ≠ []) :
    (system.cut location).Filed := by
  intro other id stands
  rw [node?_cut _ _ _ belowRoot] at stands
  split at stands
  · cases stands
  · exact filed other id stands

/-- What looks alike looks alike still when the same is taken away. -/
theorem Alike.cut (alike : Alike first second) (belowRoot : location ≠ []) :
    Alike (first.cut location) (second.cut location) where
  views other := by rw [view?_cut _ belowRoot, view?_cut _ belowRoot, alike.views]
  names one other := by rw [sameFile_cut belowRoot, sameFile_cut belowRoot, alike.names]
  places := congrArg (Place.without location) alike.places

theorem changedAt_cut (system : FileSystem) (belowRoot : location ≠ []) :
    ChangedAt location (Place.without location) system (system.cut location) where
  moves := moves_without belowRoot
  places := rfl
  nodes other outside := by rw [node?_cut _ _ _ belowRoot, if_neg outside]
  views other outside := by rw [view?_cut _ belowRoot, if_neg outside]
  directories _ directory := by
    refine nodeAt?_without ?_ directory
    intro other outside
    rw [node?_cut _ _ _ belowRoot, if_neg outside]

/-- What has been taken away can not be taken away again. -/
theorem cut_cut (system : FileSystem) (belowRoot : location ≠ []) :
    (system.cut location).cut location = system.cut location := by
  simp only [FileSystem.cut, Place.without_without belowRoot, mk.injEq, and_true]
  apply Std.ExtTreeMap.ext_getElem?
  intro other
  simp only [Std.ExtTreeMap.getElem?_filter', Option.filter_filter, Bool.and_self]

theorem Place.without_comm {location other : Location} (apart : ¬ location <+: other)
    (apartOther : ¬ other <+: location) (place : Place) :
    (place.without location).without other = (place.without other).without location := by
  have outside : ¬ other <+: location.dropLast := fun inside =>
    apartOther (inside.trans (List.dropLast_prefix _))
  have outsideOther : ¬ location <+: other.dropLast := fun inside =>
    apart (inside.trans (List.dropLast_prefix _))
  have only : ∀ here, location <+: here → ¬ other <+: here := by
    intro here inside insideOther
    rcases List.prefix_or_prefix_of_prefix inside insideOther with below | below
    · exact apart below
    · exact apartOther below
  cases place with
  | live here =>
      by_cases inside : location <+: here
      · simp [without, inside, only here inside, outside]
      · by_cases insideOther : other <+: here <;>
          simp [without, inside, insideOther, outsideOther]
  | removed between above =>
      by_cases inside : location <+: above
      · simp [without, inside, only above inside, outside]
      · by_cases insideOther : other <+: above <;>
          simp [without, inside, insideOther, outsideOther]

/-- What is taken away at two locations apart can be taken away in either order. -/
theorem cut_comm (system : FileSystem) (apart : ¬ location <+: other)
    (apartOther : ¬ other <+: location) :
    (system.cut location).cut other = (system.cut other).cut location := by
  simp only [FileSystem.cut, Place.without_comm apart apartOther, mk.injEq, and_true]
  apply Std.ExtTreeMap.ext_getElem?
  intro entry
  simp only [Std.ExtTreeMap.getElem?_filter', Option.filter_filter, Bool.and_comm]

end BundlePacker.FileSystem
