import BundlePacker.Proofs.FileSystem.Directories
import BundlePacker.Proofs.FileSystem.Walk

/-!
# Paths at which a directory can be made

A path may lead to a name that is vacant in its directory.  Once a directory has been made there,
the path means that directory, whatever its spelling, for as long as nothing on its way is lost; so
the directory can be filled and taken away again by the same path.

The main statement is about a path with an existing parent at which nothing stands: either it leads
to a vacant name and the directory is made there, or no directory is made and nothing has changed.
-/

namespace BundlePacker.FileSystem

variable {system first second : FileSystem} {purpose : Purpose} {links : Nat} {here : Place}
  {slash : Bool} {directory : Location} {name : Name} {names : List Name} {path above : Path}

/-! ## The name that is missing -/

theorem Descends.last_vacant {following : Following}
    (follows : ∀ here target rest slash, rest ≠ [] →
      following here target rest slash = .ok (.vacant directory name) →
      rest.getLast? = some name ∧ name ≠ selfName ∧ name ≠ parentName)
    (descends : Descends system .entry following slash here names (.vacant directory name)) :
    names.getLast? = some name ∧ name ≠ selfName ∧ name ≠ parentName := by
  generalize ends : Spot.vacant directory name = spot at descends
  have further : ∀ {first : Name} {rest : List Name}, rest.getLast? = some name →
      (first :: rest).getLast? = some name := by
    intro first rest last
    rw [List.getLast?_cons, last]
    rfl
  induction descends with
  | done | kept | leaf =>
      cases ends
  | self later hypothesis | parent later hypothesis | inside _ _ later hypothesis =>
      rcases hypothesis ends with ⟨last, proper⟩
      exact ⟨further last, proper⟩
  | missing enters vacant =>
      cases ends
      exact ⟨rfl, enters.neSelf, enters.neParent⟩
  | followed enters stands leads later =>
      subst ends
      rcases follows _ _ _ _ (by simpa using leads) later with ⟨last, proper⟩
      exact ⟨further last, proper⟩

theorem last_of_resolveFrom
    (ends : resolveFrom system .entry links here names slash = .ok (.vacant directory name)) :
    names.getLast? = some name ∧ name ≠ selfName ∧ name ≠ parentName := by
  induction links generalizing here names slash with
  | zero =>
      refine Descends.last_vacant ?_ (descend_eq_ok_iff.mp ends)
      intro _ _ _ _ _ impossible
      cases impossible
  | succ links hypothesis =>
      refine Descends.last_vacant ?_ (descend_eq_ok_iff.mp ends)
      intro next target rest slash more follows
      rcases hypothesis follows with ⟨last, proper⟩
      rw [List.getLast?_append_of_ne_nil _ more] at last
      exact ⟨last, proper⟩

/-- The name that an entry is missing at is the last one of the path. -/
theorem last_of_vacant (ends : system.resolve .entry path = .ok (.vacant directory name)) :
    path.names.getLast? = some name ∧ name ≠ selfName ∧ name ≠ parentName := by
  rcases resolve_eq_ok_iff.mp ends with ⟨-, here, -, reached⟩
  exact last_of_resolveFrom reached

/-! ## Directories that have been made at vacant names -/

theorem Descends.filled {before after : Following}
    (keeps : ∀ location node, first.node? location = some node →
      second.node? location = some node)
    (made : second.node? (directory ++ [name]) = some .directory) (noCreation : purpose ≠ .creation)
    (follows : ∀ here target rest slash, rest ≠ [] →
      before here target rest slash = .ok (.vacant directory name) →
      after here target rest slash = .ok (.occupied (.live (directory ++ [name]))))
    (descends : Descends first .entry before slash here names (.vacant directory name)) :
    Descends second purpose after slash here names (.occupied (.live (directory ++ [name]))) := by
  generalize ends : Spot.vacant directory name = spot at descends
  induction descends with
  | done | kept | leaf =>
      cases ends
  | self later hypothesis =>
      exact .self (hypothesis ends)
  | parent later hypothesis =>
      exact .parent (hypothesis ends)
  | missing enters vacant =>
      cases ends
      exact .inside (enters.of_enters noCreation) made .done
  | inside enters stands later hypothesis =>
      exact .inside (enters.of_enters noCreation) (keeps _ _ stands) (hypothesis ends)
  | followed enters stands leads later =>
      subst ends
      have more : _ ≠ [] := fun last => leads ⟨last, rfl⟩
      exact .followed (enters.of_enters noCreation) (keeps _ _ stands) (fun last => more last.1)
        (follows _ _ _ _ more later)

theorem resolveFrom_filled
    (keeps : ∀ location node, first.node? location = some node →
      second.node? location = some node)
    (made : second.node? (directory ++ [name]) = some .directory) (noCreation : purpose ≠ .creation)
    (ends : resolveFrom first .entry links here names slash = .ok (.vacant directory name)) :
    resolveFrom second purpose links here names slash =
      .ok (.occupied (.live (directory ++ [name]))) := by
  induction links generalizing here names slash with
  | zero =>
      refine descend_of_descends (.filled keeps made noCreation ?_ (descend_eq_ok_iff.mp ends))
      intro _ _ _ _ _ impossible
      cases impossible
  | succ links hypothesis =>
      refine descend_of_descends (.filled keeps made noCreation ?_ (descend_eq_ok_iff.mp ends))
      intro next target rest slash more follows
      simp only [if_neg more] at follows ⊢
      exact hypothesis follows

/-- A path to a vacant name designates the directory that has been made there. -/
theorem designates_of_vacant
    (keeps : ∀ location node, first.node? location = some node →
      second.node? location = some node)
    (places : second.workingDirectory = first.workingDirectory)
    (made : second.node? (directory ++ [name]) = some .directory)
    (ends : first.resolve .entry path = .ok (.vacant directory name)) :
    second.Designates path (directory ++ [name]) := by
  rcases resolve_eq_ok_iff.mp ends with ⟨clean, here, begins, reached⟩
  have starts : second.start path = .ok here := by simpa [start, places] using begins
  have resolved : ∀ purpose, purpose ≠ .creation →
      second.resolve purpose path = .ok (.occupied (.live (directory ++ [name]))) := by
    intro purpose noCreation
    exact resolve_eq_ok_iff.mpr
      ⟨clean, here, starts, resolveFrom_filled keeps made noCreation reached⟩
  exact ⟨resolved .entry (by simp), resolved .target (by simp), name, last_of_vacant ends⟩

/-! ## What is made at a vacant name -/

section Changes

variable {disk state : FileSystem} {top : Location}

/-- A path to a vacant name designates the directory that has been made there and filled. -/
theorem ChangedWithin.designates {above : Location} {name : Name}
    (changed : ChangedWithin (above ++ [name]) disk state) (wellFormed : disk.WellFormed)
    (ends : disk.resolve .entry path = .ok (.vacant above name))
    (stands : state.node? (above ++ [name]) = some .directory) :
    state.Designates path (above ++ [name]) := by
  rcases resolve_holds wellFormed ends with ⟨-, vacant, -⟩
  refine designates_of_vacant ?_ changed.places stands ends
  intro location node there
  have outside : ¬ above ++ [name] <+: location :=
    wellFormed.not_prefix_of_vacant vacant (by simp [there])
  rw [changed.nodes location outside, there]

theorem Place.withoutBelow_of_outside {place : Place} (outside : ¬ top <+: place.anchor) :
    place.withoutBelow top = place := by
  cases place <;> exact if_neg fun inside => outside inside.1

/-- What has been made at a vacant location can be emptied again. -/
theorem ChangedWithin.clear (changed : ChangedWithin top disk state)
    (wellFormed : disk.WellFormed) (vacant : disk.node? top = none) :
    ChangedWithin top disk (state.clear top) := by
  refine ⟨?_, ?_, changed.files⟩
  · intro other outside
    rw [← changed.nodes other outside]
    by_cases root : other = []
    · simp [root]
    · rw [node?_clear _ _ _ root, if_neg fun inside => outside inside.1]
  · have outside : ¬ top <+: disk.workingDirectory.anchor :=
      wellFormed.not_prefix_of_vacant vacant (by simp [wellFormed.anchored])
    rw [← changed.places] at outside
    exact (Place.withoutBelow_of_outside outside).trans changed.places

theorem Spot.moved_id (spot : Spot) : spot.moved id = spot := by
  cases spot <;> rfl

/-- What a path that passes by a vacant location means does not depend on what is made there. -/
theorem ChangedWithin.sourceAt_eq (changed : ChangedWithin top disk state)
    (wellFormed : disk.WellFormed) (vacant : disk.node? top = none)
    (passesBy : ¬ disk.PassesThrough .target path top) :
    state.sourceAt path = disk.sourceAt path := by
  have belowRoot : top ≠ [] := by
    rintro rfl
    simp at vacant
  have same : ∀ entry ∈ disk.lookedUp .target path, ¬ top <+: entry →
      state.node? entry = disk.node? entry := fun entry _ => changed.nodes entry
  have resolved : state.resolve .target path = disk.resolve .target path := by
    rw [(resolve_moved (moves_id belowRoot) changed.places
      (seenAlike_of_passing_by same passesBy)).1]
    cases disk.resolve .target path with
    | error fault =>
        rfl
    | ok spot =>
        exact congrArg Except.ok spot.moved_id
  have located : state.locate path = disk.locate path := by
    rw [locate, locate, resolved]
  rw [sourceAt, sourceAt, located]
  cases found : disk.locate path with
  | error fault =>
      rfl
  | ok place =>
      have there : state.nodeAt? place = disk.nodeAt? place := by
        cases place with
        | removed between above =>
            rfl
        | live location =>
            rcases resolve_holds wellFormed (locate_eq_ok_iff.mp found) with ⟨node, stands, -⟩
            exact changed.nodes location
              (wellFormed.not_prefix_of_vacant vacant (by simp [stands]))
      simp only [Bind.bind, Except.bind, there]

end Changes

/-! ## Paths with an existing parent -/

/-- Whether the directory in which a path lies is there; the empty path stands for where one is. -/
def HasParent (system : FileSystem) (path : Path) : Prop :=
  ∃ above, path.parent? = some above ∧ (above.bytes = [] ∨ system.isDirectory above = true)

theorem nonempty_of_parent? (parent : path.parent? = some above) : path.bytes ≠ [] := by
  intro empty
  simp [Path.parent?, empty] at parent

theorem exists_entry_of_locate {place : Place} (found : system.locate path = .ok place) :
    ∃ entry, system.resolve .entry path = .ok (.occupied entry) := by
  rcases resolve_eq_ok_iff.mp (locate_eq_ok_iff.mp found) with ⟨clean, here, begins, reached⟩
  rcases resolveFrom_entry reached with ends | ⟨location, target, ends, -⟩
  · exact ⟨_, resolve_eq_ok_iff.mpr ⟨clean, here, begins, ends⟩⟩
  · exact ⟨_, resolve_eq_ok_iff.mpr ⟨clean, here, begins, ends⟩⟩

/-- Where a directory is there already nothing is made. -/
theorem makeDirectoryIn_of_isDirectory
    (stands : above.bytes = [] ∨ system.isDirectory above = true) (count : Nat) :
    makeDirectoryIn (Path.ancestorsUpTo count above) system = .ok () system := by
  cases count with
  | zero =>
      rfl
  | succ count =>
      rw [Path.ancestorsUpTo, makeDirectoryIn]
      split
      · rfl
      next nonempty =>
      have isDirectory := stands.resolve_left nonempty
      have found : ∃ place, system.locate above = .ok place := by
        rw [FileSystem.isDirectory] at isDirectory
        split at isDirectory
        · next place found =>
          exact ⟨place, found⟩
        · cases isDirectory
      rcases found with ⟨place, found⟩
      rcases exists_entry_of_locate found with ⟨entry, ends⟩
      have refused := makeDirectory_of_occupied ends
      simp [refused, admitDirectory, isDirectory]

/-- With its parent there, a directory that can not be made at once is not made at all. -/
theorem makeDirectories_of_hasParent {fault : Fault} (hasParent : system.HasParent path)
    (lost : system.isDirectory path = false)
    (fails : makeDirectory path system = .error fault system) :
    makeDirectories path system = .error fault system := by
  rcases hasParent with ⟨above, parent, stands⟩
  have refused : admitDirectory path system = .error fault system := by
    simp [admitDirectory, fails, lost]
  rw [makeDirectories, Path.ancestors, Path.ancestorsUpTo, parent]
  simp only [makeDirectoryIn, if_neg (nonempty_of_parent? parent)]
  split
  · rw [SeqRight.seqRight]
    exact (run_bind_of_ok (makeDirectoryIn_of_isDirectory stands _)).trans refused
  · exact refused

theorem Absent.locate_ne_ok (absent : system.Absent path) (place : Place) :
    system.locate path ≠ .ok place := by
  intro found
  rcases locateEntry_of_locate found with entry | ⟨location, target, entry, -⟩
  · exact absent _ entry
  · exact absent _ entry

theorem Absent.pathExists_eq_false (absent : system.Absent path) :
    system.pathExists path = false := by
  rw [pathExists]
  split
  · next place found =>
    exact absurd found (absent.locate_ne_ok place)
  · rfl

/--
At a path with an existing parent at which nothing stands a directory is made, if the path leads to
a vacant name.  Otherwise it is refused.
-/
theorem makeDirectories_of_missing (absent : system.Absent path)
    (hasParent : system.HasParent path) :
    (∃ directory name, system.resolve .entry path = .ok (.vacant directory name) ∧
        makeDirectories path system = .ok () (system.put (directory ++ [name]) .directory)) ∨
      (∀ directory name, system.resolve .entry path ≠ .ok (.vacant directory name)) ∧
        ∃ fault, makeDirectories path system = .error fault system := by
  have lost := isDirectory_of_absent absent.pathExists_eq_false
  cases ends : system.resolve .entry path with
  | error fault =>
      right
      exact ⟨by simp, fault,
        makeDirectories_of_hasParent hasParent lost (makeDirectory_of_error ends)⟩
  | ok spot =>
      cases spot with
      | occupied place =>
          right
          exact ⟨by simp, .refused .alreadyExists,
            makeDirectories_of_hasParent hasParent lost (makeDirectory_of_occupied ends)⟩
      | vacant directory name =>
          left
          rcases hasParent with ⟨above, parent, -⟩
          have made := makeDirectory_of_vacant ends
          refine ⟨directory, name, rfl, ?_⟩
          rw [makeDirectories_eq (nonempty_of_parent? parent) (by simp [made])]
          simp only [admitDirectory, made]

end BundlePacker.FileSystem
