import BundlePacker.Proofs.FileSystem.Deposit

/-!
# The way to what has been opened

On its way to a last name a path is led by directories and links only.  Where these are kept the
path reaches the same name in the same directory, whatever has become of the files, and of the name
itself.

The main statement is about a path that could be opened for writing and is no link: it reaches a
name in every file system that keeps its way, so that what was opened can be removed by the same
path.
-/

namespace BundlePacker.FileSystem

variable {first second : FileSystem} {links : Nat} {here : Place} {slash : Bool}
  {directory : Location} {name : Name} {names rest : List Name} {spot : Spot} {path : Path}

/-- Whether the directories and links of a file system are kept, and so is the working directory. -/
structure KeepsWays (first second : FileSystem) : Prop where
  directories : ∀ location, first.node? location = some .directory →
    second.node? location = some .directory
  links : ∀ location target, first.node? location = some (.link target) →
    second.node? location = some (.link target)
  places : second.workingDirectory = first.workingDirectory

theorem KeepsWays.refl (system : FileSystem) : KeepsWays system system :=
  ⟨fun _ => id, fun _ _ => id, rfl⟩

/-- What happens at a location where no directory and no link stands is not on the way of a path. -/
theorem keepsWays_of_nodes {location : Location}
    (kept : ∀ other, other ≠ location → second.node? other = first.node? other)
    (noDirectory : first.node? location ≠ some .directory)
    (noLink : ∀ target, first.node? location ≠ some (.link target))
    (places : second.workingDirectory = first.workingDirectory) : KeepsWays first second where
  directories other stands := by
    rw [kept other (by rintro rfl; exact noDirectory stands), stands]
  links other target stands := by
    rw [kept other (by rintro rfl; exact noLink target stands), stands]
  places := places

/-- Whether names lead from a place to a last name in a directory, wherever their way is kept. -/
structure Leads (first : FileSystem) (links : Nat) (here : Place) (names : List Name)
    (directory : Location) (name : Name) : Prop where
  last : names.getLast? = some name
  goes : ∃ left, ∀ second, KeepsWays first second → ∀ purpose,
    resolveFrom second purpose links here names false =
      resolveFrom second purpose left (.live directory) [name] false

theorem leads_last (first : FileSystem) (links : Nat) (directory : Location) (name : Name) :
    Leads first links (.live directory) [name] directory name :=
  ⟨rfl, links, fun _ _ _ => rfl⟩

/-- One name more before names that lead somewhere. -/
theorem Leads.step {next start : Place} {before : Name}
    (leads : Leads first links next rest directory name)
    (steps : ∀ second, KeepsWays first second → ∀ purpose,
      resolveFrom second purpose links start (before :: rest) false =
        resolveFrom second purpose links next rest false) :
    Leads first links start (before :: rest) directory name := by
  rcases leads.goes with ⟨left, goes⟩
  refine ⟨?_, left, fun second keeps purpose =>
    (steps second keeps purpose).trans (goes second keeps purpose)⟩
  rw [List.getLast?_cons, leads.last, Option.getD_some]

/-- Whether names lead to anything but a link, which is looked at itself and not followed. -/
def NoLink (first : FileSystem) (links : Nat) (here : Place) (names : List Name) (slash : Bool) :
    Prop :=
  ∀ location target,
    resolveFrom first .entry links here names slash = .ok (.occupied (.live location)) →
      first.node? location ≠ some (.link target)

/-- Whether names lead to a name in a directory and end there at a spot, without a slash. -/
def EndsAtName (first : FileSystem) (links : Nat) (here : Place) (names : List Name) (slash : Bool)
    (spot : Spot) : Prop :=
  slash = false ∧
    ∃ directory name, spot.place = .live (directory ++ [name]) ∧
      Leads first links here names directory name

theorem EndsAtName.step {next start : Place} {before : Name}
    (ends : EndsAtName first links next rest slash spot)
    (steps : slash = false → ∀ second, KeepsWays first second → ∀ purpose,
      resolveFrom second purpose links start (before :: rest) false =
        resolveFrom second purpose links next rest false) :
    EndsAtName first links start (before :: rest) slash spot := by
  rcases ends with ⟨bare, directory, name, there, leads⟩
  exact ⟨bare, directory, name, there, leads.step (steps bare)⟩

/-- What can be looked up once can be looked up always, if no slash follows. -/
theorem Enters.bare {purpose other : Purpose} {further : List Name}
    (enters : Enters purpose slash name rest) : Enters other false name further :=
  ⟨enters.neSelf, enters.neParent, by simp, enters.short⟩

/-- A descent to what can be opened ends at a name, if what follows a link on its way does. -/
theorem Descends.endsAtName {following : Following} (wellFormed : first.WellFormed)
    (follows : ∀ directory target name rest, first.node? directory = some .directory →
      first.node? (directory ++ [name]) = some (.link target) →
      Enters .creation slash name rest → rest ≠ [] →
      following directory target rest slash = .ok spot →
      NoLink first links (.live directory) (name :: rest) slash →
      EndsAtName first links (.live directory) (name :: rest) slash spot)
    (stands : first.node? here.anchor = some .directory)
    (noDirectory : first.nodeAt? spot.place ≠ some .directory)
    (noLink : NoLink first links here names slash)
    (descends : Descends first .creation following slash here names spot) :
    EndsAtName first links here names slash spot := by
  induction descends with
  | done =>
      exact absurd (nodeAt?_of_anchor stands) noDirectory
  | self later hypothesis =>
      refine (hypothesis follows stands noDirectory ?_).step fun _ _ _ _ => resolveFrom_self
      intro location target ends
      exact noLink location target (resolveFrom_self.trans ends)
  | parent later hypothesis =>
      refine (hypothesis follows (wellFormed.anchor_parent stands) noDirectory ?_).step
        fun _ _ _ _ => resolveFrom_parent
      intro location target ends
      exact noLink location target (resolveFrom_parent.trans ends)
  | missing enters vacant =>
      exact ⟨by simpa using enters.goesOn, _, _, rfl, leads_last ..⟩
  | @inside _ name rest _ enters found later hypothesis =>
      have entry : Enters .entry slash name rest := enters.of_enters (by simp)
      refine (hypothesis follows found noDirectory ?_).step fun bare second keeps purpose =>
        resolveFrom_inside enters.bare (keeps.directories _ found)
      intro location target ends
      exact noLink location target ((resolveFrom_inside entry found).trans ends)
  | kept enters found entry =>
      cases entry
  | @followed directory name rest target spot enters found leads later =>
      by_cases last : rest = []
      · subst last
        have entry : Enters .entry slash name [] := enters.of_enters (by simp)
        refine absurd found (noLink _ target ?_)
        cases links <;> exact descend_of_descends (.kept entry found rfl)
      · exact follows _ _ _ _ stands found enters last later noLink
  | leaf enters found isNoDirectory isNoLink bare =>
      exact ⟨by simpa using bare, _, _, rfl, leads_last ..⟩

theorem endsAtName_of_resolveFrom (wellFormed : first.WellFormed)
    (stands : first.node? here.anchor = some .directory)
    (noDirectory : first.nodeAt? spot.place ≠ some .directory)
    (noLink : NoLink first links here names slash)
    (ends : resolveFrom first .creation links here names slash = .ok spot) :
    EndsAtName first links here names slash spot := by
  induction links generalizing here names slash with
  | zero =>
      refine Descends.endsAtName wellFormed ?_ stands noDirectory noLink (descend_eq_ok_iff.mp ends)
      intro _ _ _ _ _ _ _ _ impossible
      cases impossible
  | succ links hypothesis =>
      refine Descends.endsAtName wellFormed ?_ stands noDirectory noLink (descend_eq_ok_iff.mp ends)
      intro directory target name rest above found enters more follows noLink
      have entry : Enters .entry slash name rest := enters.of_enters (by simp)
      have begins : first.node?
          (Place.live (if target.isAbsolute then [] else directory)).anchor = some .directory := by
        simp only [Place.anchor]
        split
        · simp
        · exact above
      have noLaterLink : NoLink first links
          (.live (if target.isAbsolute then [] else directory)) (target.names ++ rest) slash := by
        intro location other leads
        refine noLink location other ?_
        rw [resolveFrom_followed entry found fun last => more last.1, if_neg more]
        exact leads
      simp only [if_neg more] at follows
      rcases hypothesis begins noLaterLink follows with ⟨bare, above, name, there, leads⟩
      rcases leads.goes with ⟨left, goes⟩
      refine ⟨bare, above, name, there, ?_, left, fun second keeps purpose => ?_⟩
      · have last := leads.last
        rw [List.getLast?_append_of_ne_nil _ more] at last
        rw [List.getLast?_cons, last, Option.getD_some]
      · rw [resolveFrom_followed enters.bare (keeps.links _ _ found) fun last => more last.1,
          if_neg more]
        exact goes second keeps purpose

theorem length_of_start (begins : first.start path = .ok here) : path.bytes.length < pathLimit := by
  rw [start] at begins
  split at begins
  · cases begins
  split at begins
  · cases begins
  · next short => exact Nat.lt_of_not_le short

/-- Whether a path names a link. -/
def IsLink (system : FileSystem) (path : Path) : Prop :=
  ∃ location target, system.resolve .entry path = .ok (.occupied (.live location)) ∧
    system.node? location = some (.link target)

/--
A path at which something can be opened for writing, and that is no link, reaches a name in a
directory, and it does so in every file system that keeps its way.
-/
theorem reaches_of_creation (wellFormed : first.WellFormed) (noLink : ¬ first.IsLink path)
    (ends : first.resolve .creation path = .ok spot)
    (noDirectory : first.nodeAt? spot.place ≠ some .directory) :
    ∃ directory name, spot.place = .live (directory ++ [name]) ∧
      ∀ second, KeepsWays first second → second.Reaches path directory name := by
  have holds := resolve_holds wellFormed ends
  rcases resolve_eq_ok_iff.mp ends with ⟨clean, here, begins, reached⟩
  have noLinkFrom : NoLink first linkLimit here path.names path.endsInSlash := by
    intro location target leads stands
    exact noLink ⟨location, target, resolve_eq_ok_iff.mpr ⟨clean, here, begins, leads⟩, stands⟩
  rcases endsAtName_of_resolveFrom wellFormed (start_holds wellFormed begins) noDirectory noLinkFrom
    reached with ⟨bare, directory, name, there, leads⟩
  have isName : IsName name := by
    cases spot with
    | vacant above last =>
        cases List.append_inj_right' (Place.live.inj there) rfl
        exact holds.2.2
    | occupied place =>
        cases there
        rcases holds with ⟨node, stands, -⟩
        have occupied : first.node? (directory ++ [name]) ≠ none := by simp [stands]
        exact wellFormed.isName_of_mem occupied name (by simp)
  refine ⟨directory, name, there, fun second keeps => ?_⟩
  have starts : second.start path = .ok here := by simpa [start, keeps.places] using begins
  rcases leads.goes with ⟨left, goes⟩
  refine ⟨isName, leads.last, bare, ⟨clean, length_of_start begins, isName.short⟩, left, ?_⟩
  intro purpose
  rw [resolve, if_neg clean, starts, bare]
  simp only [goes second keeps purpose]
  cases resolveFrom second purpose left (.live directory) [name] false <;> rfl

end BundlePacker.FileSystem
