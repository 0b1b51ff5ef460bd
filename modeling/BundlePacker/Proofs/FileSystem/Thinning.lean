import BundlePacker.Proofs.FileSystem.Vacancy

/-!
# What a removal leaves

A removal takes nodes out of the tree, and where the working directory goes with them it knows still
what was above it.  That is all: what stands in the tree afterwards stood there before.  So a path
leads afterwards to where it led before, or it comes to a name that is missing.

The main statements are that whatever can be read after a removal was read before it by the same
path, and that a tree is removed by every path that means a directory and ends in a name.
-/

namespace BundlePacker.FileSystem

variable {first second third system : FileSystem} {move : Place → Place} {purpose : Purpose}
  {links : Nat} {here place : Place} {slash : Bool} {location : Location} {name : Name}
  {names : List Name} {spot : Spot} {path : Path}

/-! ## Removals -/

/-- Whether a file system is what a removal leaves of another one, by which places are moved. -/
structure Thinned (move : Place → Place) (first second : FileSystem) : Prop where
  parent : ∀ place, (move place).parent = move place.parent
  live : ∀ here, move (.live here) = .live here ∨
    ∃ between above, move (.live here) = .removed between above
  removed : ∀ between above, ∃ later higher, move (.removed between above) = .removed later higher
  kept : ∀ location node, second.node? location = some node →
    first.node? location = some node ∧ move (.live location) = .live location
  places : second.workingDirectory = move first.workingDirectory
  files : second.files = first.files

theorem thinned_refl (system : FileSystem) : Thinned id system system where
  parent _ := rfl
  live _ := .inl rfl
  removed between above := ⟨between, above, rfl⟩
  kept _ _ stands := ⟨stands, rfl⟩
  places := rfl
  files := rfl

theorem Thinned.trans {later : Place → Place} (thinned : Thinned move first second)
    (again : Thinned later second third) : Thinned (later ∘ move) first third where
  parent place := (again.parent (move place)).trans (congrArg later (thinned.parent place))
  live here := by
    simp only [Function.comp_apply]
    rcases thinned.live here with stays | ⟨between, above, gone⟩
    · rw [stays]
      exact again.live here
    · rw [gone]
      exact .inr (again.removed between above)
  removed between above := by
    rcases thinned.removed between above with ⟨further, higher, gone⟩
    simp only [Function.comp_apply, gone]
    exact again.removed further higher
  kept location node stands := by
    rcases again.kept location node stands with ⟨before, stays⟩
    rcases thinned.kept location node before with ⟨earlier, stayed⟩
    exact ⟨earlier, by rw [Function.comp_apply, stayed, stays]⟩
  places := again.places.trans (congrArg later thinned.places)
  files := again.files.trans thinned.files

theorem thinned_cut (system : FileSystem) (belowRoot : location ≠ []) :
    Thinned (Place.without location) system (system.cut location) where
  parent := Place.parent_without location belowRoot
  live here := by
    by_cases inside : location <+: here
    · exact .inr ⟨_, _, if_pos inside⟩
    · exact .inl (if_neg inside)
  removed := (moves_without belowRoot).removed
  kept other node stands := by
    rw [node?_cut _ _ _ belowRoot] at stands
    split at stands
    · cases stands
    · next outside => exact ⟨stands, Place.without_live outside⟩
  places := rfl
  files := rfl

theorem thinned_clear (system : FileSystem) (location : Location) :
    Thinned (Place.withoutBelow location) system (system.clear location) where
  parent := Place.parent_withoutBelow location
  live here := by
    by_cases inside : location <+: here ∧ here ≠ location
    · exact .inr ⟨_, _, if_pos inside⟩
    · exact .inl (if_neg inside)
  removed between above := by
    by_cases inside : location <+: above ∧ above ≠ location
    · exact ⟨_, _, if_pos inside⟩
    · exact ⟨_, _, if_neg inside⟩
  kept other node stands := by
    by_cases root : other = []
    · subst root
      rw [node?_root] at stands ⊢
      exact ⟨stands, if_neg fun inside => inside.2 (List.prefix_nil.mp inside.1).symm⟩
    · rw [node?_clear _ _ _ root] at stands
      split at stands
      · cases stands
      · next outside => exact ⟨stands, if_neg outside⟩
  places := rfl
  files := rfl

/-! ## Resolutions after a removal -/

/-- How a resolution can end after a removal, by how it ended before. -/
inductive Fades (move : Place → Place) (before : Except Refusal Spot) :
    Except Refusal Spot → Prop
  /-- It ends where it ended before. -/
  | moved : Fades move before (before.map (Spot.moved move))
  /-- A name on its way is missing. -/
  | lost : Fades move before (.error .notFound)
  /-- Its last name is missing. -/
  | vacated (directory : Location) (name : Name) : Fades move before (.ok (.vacant directory name))

theorem Fades.of_stays (stays : move place = place) :
    Fades move (.ok (.occupied place)) (.ok (.occupied place)) := by
  have fades : Fades move (.ok (.occupied place)) (.ok (.occupied (move place))) := .moved
  rwa [stays] at fades

theorem Thinned.descend {before after : Following} (thinned : Thinned move first second)
    (follows : ∀ here target rest slash, move (.live here) = .live here →
      Fades move (before here target rest slash) (after here target rest slash)) :
    Fades move (descend first purpose before here names slash)
      (descend second purpose after (move here) names slash) := by
  induction names generalizing here with
  | nil =>
      exact .moved
  | cons name rest hypothesis =>
      simp only [FileSystem.descend]
      split
      · exact hypothesis
      split
      · rw [thinned.parent]
        exact hypothesis
      split
      · exact .moved
      cases here with
      | removed between above =>
          rcases thinned.removed between above with ⟨later, higher, gone⟩
          rw [gone]
          exact .lost
      | live directory =>
          rcases thinned.live directory with stays | ⟨between, above, gone⟩
          · rw [stays]
            simp only
            split
            · exact .moved
            cases found : second.node? (directory ++ [name]) with
            | none =>
                by_cases last : rest = []
                · simp only [if_pos last]
                  exact .vacated directory name
                · simp only [if_neg last]
                  exact .lost
            | some node =>
                rcases thinned.kept _ _ found with ⟨stood, there⟩
                rw [stood]
                cases node with
                | directory =>
                    have later : Fades move
                        (FileSystem.descend first purpose before (.live (directory ++ [name]))
                          rest slash)
                        (FileSystem.descend second purpose after
                          (move (.live (directory ++ [name]))) rest slash) := hypothesis
                    rwa [there] at later
                | link target =>
                    simp only
                    split
                    · exact .of_stays there
                    · exact follows _ _ _ _ stays
                | file _ | special _ =>
                    simp only
                    split
                    · exact .of_stays there
                    · exact .moved
          · rw [gone]
            exact .lost

theorem Thinned.resolveFrom (thinned : Thinned move first second) :
    Fades move (resolveFrom first purpose links here names slash)
      (resolveFrom second purpose links (move here) names slash) := by
  induction links generalizing here names slash with
  | zero =>
      exact thinned.descend fun _ _ _ _ _ => .moved
  | succ links hypothesis =>
      refine thinned.descend fun directory target rest slash stays => ?_
      have begins : move (.live (if target.isAbsolute then [] else directory)) =
          .live (if target.isAbsolute then [] else directory) := by
        split
        · exact (thinned.kept [] .directory (node?_root second)).2
        · exact stays
      have later : ∀ names slash,
          Fades move
            (FileSystem.resolveFrom first purpose links
              (.live (if target.isAbsolute then [] else directory)) names slash)
            (FileSystem.resolveFrom second purpose links
              (move (.live (if target.isAbsolute then [] else directory))) names slash) :=
        fun _ _ => hypothesis
      rw [begins] at later
      exact later _ _

theorem Thinned.start (thinned : Thinned move first second) (path : Path) :
    second.start path = (first.start path).map move := by
  have root : move (.live []) = .live [] := (thinned.kept [] .directory (node?_root second)).2
  rw [FileSystem.start, FileSystem.start, thinned.places]
  split
  · rfl
  split
  · rfl
  split
  · simp [Except.map, root]
  · rfl

/-- What a path means after a removal it meant before, in the place that has been moved. -/
theorem Thinned.resolve_eq_occupied (thinned : Thinned move first second)
    (ends : second.resolve purpose path = .ok (.occupied place)) :
    ∃ before, first.resolve purpose path = .ok (.occupied before) ∧ move before = place := by
  rcases resolve_eq_ok_iff.mp ends with ⟨clean, here, begins, reached⟩
  rw [thinned.start] at begins
  cases began : first.start path with
  | error refusal =>
      rw [began] at begins
      cases begins
  | ok start =>
      rw [began] at begins
      cases begins
      have fades : Fades move
          (FileSystem.resolveFrom first purpose linkLimit start path.names path.endsInSlash) _ :=
        thinned.resolveFrom
      rw [reached] at fades
      generalize earlier : FileSystem.resolveFrom first purpose linkLimit start path.names
        path.endsInSlash = before at fades
      generalize same : Except.ok (Spot.occupied place) = after at fades
      cases fades with
      | moved =>
          rcases before with refusal | ⟨stood | ⟨directory, name⟩⟩
          · cases same
          · cases same
            exact ⟨stood, resolve_eq_ok_iff.mpr ⟨clean, start, began, earlier⟩, rfl⟩
          · cases same
      | lost | vacated =>
          cases same

/-- What a path meant before a removal it means afterwards, or a name of it is missing. -/
theorem Thinned.resolve_cases (thinned : Thinned move first second)
    (ends : first.resolve purpose path = .ok (.occupied place)) :
    second.resolve purpose path = .ok (.occupied (move place)) ∨
      second.resolve purpose path = .error (.refused .notFound) ∨
      ∃ directory name, second.resolve purpose path = .ok (.vacant directory name) := by
  rcases resolve_eq_ok_iff.mp ends with ⟨clean, here, begins, reached⟩
  have starts : second.start path = .ok (move here) := by
    rw [thinned.start, begins]
    rfl
  have fades : Fades move _
      (FileSystem.resolveFrom second purpose linkLimit (move here) path.names path.endsInSlash) :=
    thinned.resolveFrom
  rw [reached] at fades
  rw [resolve, if_neg clean, starts]
  simp only
  generalize FileSystem.resolveFrom second purpose linkLimit (move here) path.names
    path.endsInSlash = after at fades
  cases fades with
  | moved => exact .inl rfl
  | lost => exact .inr (.inl rfl)
  | vacated directory name => exact .inr (.inr ⟨directory, name, rfl⟩)

/-- What can be read after a removal was read before it. -/
theorem Thinned.contentOf (thinned : Thinned move first second) {content : Content}
    (reads : second.contentOf path = .ok content) : first.contentOf path = .ok content := by
  rcases exists_of_bind_eq_ok reads with ⟨source, opens, reads⟩
  cases source with
  | irregular =>
      cases reads
  | file id =>
      rcases sourceAt_eq_file_iff.mp opens with ⟨place, found, stands⟩
      rcases thinned.resolve_eq_occupied (locate_eq_ok_iff.mp found) with ⟨before, ends, moved⟩
      have stood : first.nodeAt? before = some (.file id) := by
        cases before with
        | removed between above =>
            rcases thinned.removed between above with ⟨later, higher, gone⟩
            rw [← moved, gone] at stands
            cases stands
        | live location =>
            rcases thinned.live location with stays | ⟨between, above, gone⟩
            · rw [← moved, stays] at stands
              exact (thinned.kept location _ stands).1
            · rw [← moved, gone] at stands
              cases stands
      have again : first.sourceAt path = .ok (.file id) :=
        sourceAt_eq_file_iff.mpr ⟨before, locate_eq_ok_iff.mpr ends, stood⟩
      have known : second.file? id = first.file? id := by rw [file?, file?, thinned.files]
      simp only [known] at reads
      simpa only [FileSystem.contentOf, again, Bind.bind, Except.bind] using reads

/-! ## Calls that remove -/

/-- Whether a file system is well-formed and what removals have left of another one. -/
def Remains (first second : FileSystem) : Prop :=
  second.WellFormed ∧ ∃ move, Thinned move first second

theorem Remains.cut (remains : Remains first second) (belowRoot : location ≠ []) :
    Remains first (second.cut location) := by
  rcases remains with ⟨wellFormed, move, thinned⟩
  exact ⟨wellFormed.cutAt belowRoot, _, thinned.trans (thinned_cut second belowRoot)⟩

theorem Remains.keptByRemoving (first : FileSystem) (path : Path) :
    KeptByRemoving (Remains first) path where
  file := by
    refine Call.keeps_alter fun system next remains removed => ?_
    rcases exists_of_bind_eq_ok removed with ⟨spot, ends, removed⟩
    split at removed
    · cases removed
    · cases removed
    next location =>
    split at removed
    · cases removed
    next noDirectory =>
    split at removed
    · cases removed
    cases removed
    apply remains.cut
    rintro rfl
    exact noDirectory (node?_root system)
  directory := by
    refine Call.keeps_alter fun system next remains removed => ?_
    rcases exists_of_bind_eq_ok removed with ⟨spot, ends, removed⟩
    split at removed
    · cases removed
    next place =>
    split at removed
    · cases removed
    next last atLast =>
    split at removed
    · cases removed
    next neSelf =>
    split at removed
    · cases removed
    next neParent =>
    split at removed
    · cases removed
    next location =>
    split at removed
    · cases removed
    split at removed
    · cases removed
    cases removed
    exact remains.cut (resolve_entry_ne_root atLast neSelf neParent ends)
  content := by
    refine Call.keeps_alter fun system next remains emptied => ?_
    rcases exists_of_bind_eq_ok emptied with ⟨place, -, emptied⟩
    split at emptied
    · cases emptied
      exact remains
    next location =>
    split at emptied
    · next stands =>
      cases emptied
      rcases remains with ⟨wellFormed, move, thinned⟩
      exact ⟨wellFormed.clear stands, _, thinned.trans (thinned_clear system location)⟩
    · cases emptied

/-- Whatever can be read once a tree has been removed was read before by the same path. -/
theorem contentOf_of_removeTree (wellFormed : first.WellFormed) {removed : Path}
    (ran : removeTree removed first = .ok () second) {content : Content}
    (reads : second.contentOf path = .ok content) : first.contentOf path = .ok content := by
  rcases (Remains.keptByRemoving first removed).removeTree.of_ok
    ⟨wellFormed, id, thinned_refl first⟩ ran with ⟨-, move, thinned⟩
  exact thinned.contentOf reads

/-! ## Trees that can be removed -/

/-- Whether a path is written with a name at its end, and with no slash after it. -/
structure EndsInName (path : Path) (name : Name) : Prop where
  last : path.names.getLast? = some name
  neSelf : name ≠ selfName
  neParent : name ≠ parentName
  bare : path.endsInSlash = false

/-- A name that is joined to a path is at its end. -/
theorem endsInName_join (base : Path) (solid : IsSegment name) :
    EndsInName (base.join ⟨name⟩) name := by
  have relative := isAbsolute_of_isSegment solid
  refine ⟨?_, solid.neSelf, solid.neParent, ?_⟩
  · by_cases nonempty : base.bytes = []
    · rcases Path.join_cases base relative with ⟨-, joined⟩ | ⟨start, shape, -⟩ | ⟨other, -⟩
      · rw [joined, names_of_isSegment solid, List.getLast?_singleton]
      · simp [nonempty] at shape
      · exact absurd nonempty other
    · rw [Path.names_join nonempty relative, names_of_isSegment solid, List.getLast?_concat]
  · rw [Path.endsInSlash_join relative solid.nonempty, endsInSlash_of_isSegment solid]

theorem EndsInName.nonempty (endsInName : EndsInName path name) : path.bytes ≠ [] := by
  intro empty
  have last := endsInName.last
  rw [Path.names, empty] at last
  cases last

theorem dismissDirectory_of_lost (lost : system.resolve .entry path = .error (.refused .notFound) ∨
      ∃ directory name, system.resolve .entry path = .ok (.vacant directory name)) :
    dismissDirectory path system = .ok () system := by
  have missing : removeDirectory path system = .error (.refused .notFound) system := by
    rcases lost with ends | ⟨directory, name, ends⟩ <;>
      simp [removeDirectory, Call.alter, Bind.bind, Except.bind, ends]
  simp [dismissDirectory, missing]

/-- A directory is gone, or in nobody's way, once it has been emptied and dismissed. -/
theorem exists_dismissDirectory (endsInName : EndsInName path name)
    (entry : system.resolve .entry path = .ok (.occupied place))
    (empty : ∀ location, place = .live location →
      system.node? location = some .directory ∧ system.below location = []) :
    ∃ next, dismissDirectory path system = .ok () next := by
  cases place with
  | removed between above =>
      have missing : removeDirectory path system = .error (.refused .notFound) system := by
        simp [removeDirectory, Call.alter, Bind.bind, Except.bind, entry, endsInName.last,
          endsInName.neSelf, endsInName.neParent]
      exact ⟨system, by simp [dismissDirectory, missing]⟩
  | live location =>
      rcases empty location rfl with ⟨stands, below⟩
      have dismissed : removeDirectory path system = .ok () (system.cut location) := by
        simp [removeDirectory, Call.alter, Bind.bind, Except.bind, entry, endsInName.last,
          endsInName.neSelf, endsInName.neParent, stands, below]
      exact ⟨system.cut location, by simp [dismissDirectory, dismissed]⟩

theorem below_clear (system : FileSystem) (location : Location) :
    (system.clear location).below location = [] := by
  rw [List.eq_nil_iff_forall_not_mem]
  rintro ⟨other, node⟩ member
  rcases mem_below_iff.mp member with ⟨found, inside, proper⟩
  have belowRoot : other ≠ [] := by
    rintro rfl
    exact proper (List.prefix_nil.mp inside).symm
  rw [node?_clear _ _ _ belowRoot, if_pos ⟨inside, proper⟩] at found
  cases found

/-- A tree is removed by every path that means a directory and ends in a name. -/
theorem exists_removeTree (endsInName : EndsInName path name)
    (isDirectory : system.isDirectory path = true) :
    ∃ next, removeTree path system = .ok () next := by
  rw [FileSystem.isDirectory] at isDirectory
  split at isDirectory
  case h_2 => cases isDirectory
  next place found =>
  have stands : system.nodeAt? place = some .directory := by simpa using isDirectory
  have toEntry : ∀ {other}, system.locateEntry path = .ok other →
      system.resolve .entry path = .ok (.occupied other) := by
    intro other leads
    rw [locateEntry, endsInName.bare] at leads
    rcases exists_of_bind_eq_ok leads with ⟨spot, ends, leads⟩
    cases spot with
    | vacant directory name => cases leads
    | occupied there =>
        cases leads
        exact ends
  rcases locateEntry_of_locate found with leads | ⟨location, target, leads, link⟩
  · have entry := toEntry leads
    rw [removeTree_of_no_link leads (by simp [stands])]
    cases place with
    | removed between above =>
        have emptied : emptyDirectory path system = .ok () system := by
          simp [emptyDirectory, Call.alter, Bind.bind, Except.bind, found]
        rw [run_bind_of_ok emptied]
        exact exists_dismissDirectory endsInName entry (by simp)
    | live location =>
        have directory : system.node? location = some .directory := stands
        have emptied : emptyDirectory path system = .ok () (system.clear location) := by
          simp [emptyDirectory, Call.alter, Bind.bind, Except.bind, found, directory]
        rw [run_bind_of_ok emptied]
        -- The way to the directory may have passed through what was in it.
        have stays : Place.withoutBelow location (.live location) = .live location :=
          if_neg (by simp)
        rcases (thinned_clear system location).resolve_cases entry with again | lost
        · rw [stays] at again
          refine exists_dismissDirectory endsInName again ?_
          rintro _ ⟨⟩
          refine ⟨?_, below_clear system location⟩
          by_cases root : location = []
          · rw [root, node?_root]
          · rw [node?_clear _ _ _ root, if_neg (by simp), directory]
        · exact ⟨_, dismissDirectory_of_lost lost⟩
  · have entry := toEntry leads
    rw [removeTree_of_link leads link]
    exact ⟨system.cut location, by
      simp [removeFile, Call.alter, Bind.bind, Except.bind, entry, link, endsInName.bare]⟩

end BundlePacker.FileSystem
