import BundlePacker.Proofs.FileSystem.Growth

/-!
# Directories that are made anew

Making a directory with everything above it may come upon one that is there already.  Whether it
does can not always be told beforehand: with a missing directory also the way through it and back is
missing, and once it has been made, the way leads to something old.

The main statement is that a path without such ways back means an empty directory afterwards, if it
has meant no directory before.  That is so whenever what it meant has been removed.
-/

namespace BundlePacker.FileSystem

variable {system first second : FileSystem} {purpose : Purpose} {links : Nat} {slash : Bool}
  {here there place : Place} {top location : Location} {name : Name} {names : List Name}
  {path upper : Path}

/-- Whether a location is that of an empty directory. -/
structure Empty (system : FileSystem) (top : Location) : Prop where
  stands : system.node? top = some .directory
  vacant : ∀ names, names ≠ [] → system.node? (top ++ names) = none

/-! ## Ways through an empty directory -/

/-- Nothing is found in an empty directory by a way that does not lead back. -/
theorem Empty.resolveFrom_ne_occupied (empty : system.Empty top) (plain : parentName ∉ names)
    (further : ∃ name ∈ names, name ≠ selfName) :
    resolveFrom system purpose links (.live top) names slash ≠ .ok (.occupied place) := by
  intro ends
  induction names with
  | nil =>
      rcases further with ⟨name, member, -⟩
      cases member
  | cons name rest hypothesis =>
      by_cases same : name = selfName
      · subst same
        rw [resolveFrom_self] at ends
        refine hypothesis (fun inside => plain (List.mem_cons_of_mem _ inside)) ?_ ends
        rcases further with ⟨other, member, proper⟩
        exact ⟨other, (List.mem_cons.mp member).resolve_left proper, proper⟩
      · have vacant := empty.vacant [name] (by simp)
        cases resolveFrom_eq_ok_iff.mp ends with
        | self _ => exact same rfl
        | parent _ => exact plain (List.mem_cons_self ..)
        | inside _ stands _ | kept _ stands _ | followed _ stands _ _ | leaf _ stands _ _ _ =>
            cases vacant.symm.trans stands

theorem eq_of_start (begins : system.start path = .ok here) (begun : system.start upper = .ok there)
    (starts : path.isAbsolute = upper.isAbsolute) : here = there := by
  rw [start] at begins begun
  split at begins
  · cases begins
  split at begins
  · cases begins
  split at begun
  · cases begun
  split at begun
  · cases begun
  rw [starts] at begins
  exact Except.ok.inj (begins.symm.trans begun)

section Through

variable (empty : system.Empty top) (leads : system.locate upper = .ok (.live top))
  (longer : path.names = upper.names ++ names) (starts : path.isAbsolute = upper.isAbsolute)
  (plain : parentName ∉ names) (further : ∃ name ∈ names, name ≠ selfName)

include empty leads longer starts plain further

/-- A path through an empty directory that does not lead back means nothing. -/
theorem Empty.locate_ne_ok (place : Place) : system.locate path ≠ .ok place := by
  intro found
  rcases resolve_eq_ok_iff.mp (locate_eq_ok_iff.mp found) with ⟨-, here, begins, reached⟩
  rcases resolve_eq_ok_iff.mp (locate_eq_ok_iff.mp leads) with ⟨-, there, begun, led⟩
  cases eq_of_start begins begun starts
  have above : system.nodeAt? (.live top) = some .directory := empty.stands
  rcases goesOn_of_resolveFrom above led with ⟨remaining, goes⟩
  have proper : names ≠ [] := by
    rintro rfl
    rcases further with ⟨name, member, -⟩
    cases member
  rw [longer, goes .target names path.endsInSlash proper] at reached
  exact empty.resolveFrom_ne_occupied plain further reached

theorem Empty.isDirectory_eq_false : system.isDirectory path = false := by
  rw [Bool.eq_false_iff]
  intro isDirectory
  rcases isDirectory_iff.mp isDirectory with ⟨place, found, -⟩
  exact empty.locate_ne_ok leads longer starts plain further place found

end Through

/-! ## Directories that have been made -/

theorem empty_put (wellFormed : system.WellFormed) (belowRoot : location ≠ [])
    (vacant : system.node? location = none) : (system.put location .directory).Empty location := by
  refine ⟨by rw [node?_put _ _ _ _ belowRoot, if_pos rfl], fun names more => ?_⟩
  rw [node?_put _ _ _ _ belowRoot, if_neg (by simpa using more)]
  by_contra stands
  exact wellFormed.not_prefix_of_vacant vacant stands (List.prefix_append ..)

/-- Whether a path means an empty directory. -/
def MeansEmpty (system : FileSystem) (path : Path) : Prop :=
  ∃ top, system.locate path = .ok (.live top) ∧ system.Empty top

theorem meansEmpty_of_admitDirectory (wellFormed : first.WellFormed)
    (missing : first.isDirectory path = false)
    (made : admitDirectory path first = .ok () second) : second.MeansEmpty path := by
  rcases admitDirectory_cases made with ⟨directory, name, ends, rfl⟩ | ⟨-, there⟩
  · exact ⟨directory ++ [name], locate_put_of_vacant wellFormed ends,
      empty_put wellFormed (by simp) (resolve_holds wellFormed ends).2.1⟩
  · cases missing.symm.trans there

/--
When what is above a path has been made, the path means no directory yet: either nothing has been
made, or what is above the path is empty.
-/
theorem meansEmpty_of_makeDirectoryIn (wellFormed : first.WellFormed) (nonempty : path.bytes ≠ [])
    (plain : parentName ∉ path.names) (missing : first.isDirectory path = false) {count : Nat}
    (made : makeDirectoryIn (path.ancestorsUpTo (count + 1)) first = .ok () second) :
    second.MeansEmpty path := by
  induction count generalizing path second with
  | zero =>
      rw [Path.ancestorsUpTo] at made
      rcases exists_admitDirectory nonempty made with ⟨middle, same | ran, own⟩
      · exact meansEmpty_of_admitDirectory wellFormed missing (same ▸ own)
      · split at ran <;> cases ran <;> exact meansEmpty_of_admitDirectory wellFormed missing own
  | succ count hypothesis =>
      rw [Path.ancestorsUpTo] at made
      rcases exists_admitDirectory nonempty made with ⟨middle, same | ran, own⟩
      · exact meansEmpty_of_admitDirectory wellFormed missing (same ▸ own)
      · split at ran
        · cases ran
          exact meansEmpty_of_admitDirectory wellFormed missing own
        next upper parent =>
        by_cases there : upper.bytes = [] ∨ first.isDirectory upper = true
        · cases (makeDirectoryIn_of_isDirectory there (count + 1)).symm.trans ran
          exact meansEmpty_of_admitDirectory wellFormed missing own
        · rcases not_or.mp there with ⟨proper, missingAbove⟩
          rcases Path.exists_names_of_parent? parent proper with ⟨rest, longer, further⟩
          rw [longer, List.mem_append, not_or] at plain
          rcases hypothesis proper plain.1 (by simpa using missingAbove) ran with
            ⟨top, leads, empty⟩
          have starts := ((Path.above_of_parent? parent).starts proper).symm
          exact meansEmpty_of_admitDirectory (wellFormed_of_makeDirectoryIn wellFormed ran)
            (empty.isDirectory_eq_false leads longer starts plain.2 further) own

/-- A path that does not lead back means an empty directory when it has not meant one before. -/
theorem meansEmpty_of_makeDirectories (wellFormed : first.WellFormed) (nonempty : path.bytes ≠ [])
    (plain : parentName ∉ path.names) (missing : first.isDirectory path = false)
    (made : makeDirectories path first = .ok () second) : second.MeansEmpty path :=
  meansEmpty_of_makeDirectoryIn wellFormed nonempty plain missing made

/-! ## Directories that have been removed -/

theorem exists_entry_of_isDirectory (wellFormed : system.WellFormed)
    (endsInName : EndsInName path name) (isDirectory : system.isDirectory path = true) :
    ∃ location, system.resolve .entry path = .ok (.occupied (.live location)) := by
  rcases isDirectory_iff.mp isDirectory with ⟨place, found, -⟩
  have ends := locate_eq_ok_iff.mp found
  rcases reaches_of_resolve wellFormed endsInName ends with ⟨directory, -, reaches⟩
  have reached := reaches _ (.refl _)
  cases stands : system.node? (directory ++ [name]) with
  | none => cases (reached.resolve_vacant .target stands).symm.trans ends
  | some node => exact ⟨_, reached.resolve_occupied .entry stands (.inl rfl)⟩

/-- What a path names is gone once it has been taken away, also if the path passes through it. -/
theorem isDirectory_cut (wellFormed : system.WellFormed) (endsInName : EndsInName path name)
    (ends : system.resolve .entry path = .ok (.occupied (.live location)))
    (belowRoot : location ≠ []) : (system.cut location).isDirectory path = false := by
  rw [Bool.eq_false_iff]
  intro isDirectory
  rcases exists_entry_of_isDirectory (wellFormed.cutAt belowRoot) endsInName isDirectory with
    ⟨other, again⟩
  rcases (thinned_cut system belowRoot).resolve_eq_occupied again with ⟨before, stood, moved⟩
  cases ends.symm.trans stood
  rw [Place.without, if_pos (List.prefix_refl location)] at moved
  cases moved

theorem isDirectory_of_removeFile (wellFormed : first.WellFormed)
    (endsInName : EndsInName path name) (ran : removeFile path first = .ok () second) :
    second.isDirectory path = false := by
  rcases exists_of_bind_eq_ok (Call.of_alter ran) with ⟨spot, ends, removed⟩
  split at removed
  · cases removed
  · cases removed
  next location =>
  split at removed
  · cases removed
  split at removed
  · cases removed
  cases removed
  exact isDirectory_cut wellFormed endsInName ends
    (resolve_entry_ne_root endsInName.last endsInName.neSelf endsInName.neParent ends)

/-- A directory that is called by its name is removed, or a reason other than its absence is given. -/
theorem removeDirectory_cases (endsInName : EndsInName path name)
    (ends : system.resolve .entry path = .ok (.occupied (.live location))) :
    removeDirectory path system = .ok () (system.cut location) ∨
      ∃ refusal, refusal ≠ .notFound ∧
        removeDirectory path system = .error (.refused refusal) system := by
  simp only [removeDirectory, Call.alter, Bind.bind, Except.bind, ends, endsInName.last,
    if_neg endsInName.neSelf, if_neg endsInName.neParent]
  by_cases stands : system.node? location = some .directory
  · by_cases empty : system.below location = []
    · exact .inl (by simp [stands, empty])
    · exact .inr ⟨.notEmpty, by simp, by simp [stands, empty]⟩
  · exact .inr ⟨.notDirectory, by simp, by simp [stands]⟩

theorem isDirectory_of_dismissDirectory (wellFormed : first.WellFormed)
    (endsInName : EndsInName path name) (ran : dismissDirectory path first = .ok () second) :
    second.isDirectory path = false := by
  rw [dismissDirectory] at ran
  split at ran
  · next next removes =>
    cases ran
    rcases exists_of_bind_eq_ok (Call.of_alter removes) with ⟨spot, ends, removed⟩
    simp only [endsInName.last, if_neg endsInName.neSelf, if_neg endsInName.neParent] at removed
    split at removed
    · cases removed
    split at removed
    · cases removed
    split at removed
    · cases removed
    split at removed
    · cases removed
    cases removed
    exact isDirectory_cut wellFormed endsInName ends
      (resolve_entry_ne_root endsInName.last endsInName.neSelf endsInName.neParent ends)
  · next fault next refused =>
    split at ran
    · next lost =>
      cases ran
      subst lost
      cases Call.eq_of_alter_error refused
      rw [Bool.eq_false_iff]
      intro isDirectory
      rcases exists_entry_of_isDirectory wellFormed endsInName isDirectory with ⟨location, ends⟩
      rcases removeDirectory_cases endsInName ends with removes | ⟨refusal, other, failed⟩
      · cases removes.symm.trans refused
      · cases failed.symm.trans refused
        exact other rfl
    · cases ran

/-- A path that ends in a name means no directory once its tree has been removed. -/
theorem isDirectory_of_removeTree (wellFormed : first.WellFormed)
    (endsInName : EndsInName path name) (ran : removeTree path first = .ok () second) :
    second.isDirectory path = false := by
  cases entry : first.locateEntry path with
  | error fault =>
      cases (run_bind_of_error (observe_of_error entry)).symm.trans ran
  | ok place =>
      by_cases link : ∃ target, first.nodeAt? place = some (.link target)
      · rcases link with ⟨target, stands⟩
        rw [removeTree_of_link entry stands] at ran
        exact isDirectory_of_removeFile wellFormed endsInName ran
      · rw [removeTree_of_no_link entry (by simpa using link)] at ran
        rcases exists_of_run_bind_eq_ok ran with ⟨_, emptied, empties, ran⟩
        have wellFormedEmptied : emptied.WellFormed :=
          (keeps_emptyDirectory path).of_ok wellFormed empties
        exact isDirectory_of_dismissDirectory wellFormedEmptied endsInName ran

end BundlePacker.FileSystem
