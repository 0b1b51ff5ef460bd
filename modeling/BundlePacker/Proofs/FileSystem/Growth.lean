import BundlePacker.Proofs.FileSystem.Crossing
import BundlePacker.Proofs.FileSystem.Thinning
import BundlePacker.Proofs.FileSystem.Way

/-!
# What is made and written

Making directories and writing files takes nothing out of the tree, so that every path leads still
to where it led before.  In particular a path that ends in a name comes to that name in the same
directory, and a directory that has been made is there.

The main statement is about a path that has been opened for writing and ends in a name: the name can
be removed by the same path, and no path to a directory is lost with it.
-/

namespace BundlePacker.FileSystem

variable {first second third system : FileSystem} {purpose : Purpose} {links : Nat} {here : Place}
  {slash : Bool} {directory : Location} {name : Name} {names : List Name} {spot : Spot}
  {path other : Path}

/-! ## File systems that have grown -/

/-- Whether a file system has everything that another one has, in the same place. -/
structure Grown (first second : FileSystem) : Prop where
  nodes : ∀ location node, first.node? location = some node → second.node? location = some node
  places : second.workingDirectory = first.workingDirectory

namespace Grown

theorem refl (system : FileSystem) : Grown system system :=
  ⟨fun _ _ => id, rfl⟩

theorem trans (grown : Grown first second) (further : Grown second third) : Grown first third :=
  ⟨fun location node stands => further.nodes location node (grown.nodes location node stands),
    further.places.trans grown.places⟩

theorem put {location : Location} {node : Node} (belowRoot : location ≠ [])
    (vacant : system.node? location = none) : Grown system (system.put location node) := by
  refine ⟨fun other found stands => ?_, rfl⟩
  rw [node?_put _ _ _ _ belowRoot, if_neg, stands]
  rintro rfl
  rw [vacant] at stands
  cases stands

theorem putFile {location : Location} {file : File} (belowRoot : location ≠ [])
    (vacant : system.node? location = none) : Grown system (system.putFile location file) := by
  have added : Grown system (system.addFile file) := ⟨fun _ _ => id, rfl⟩
  exact added.trans (put belowRoot vacant)

variable (grown : Grown first second)

include grown

theorem keepsWays : KeepsWays first second :=
  ⟨fun location => grown.nodes location .directory,
    fun location target => grown.nodes location (.link target), grown.places⟩

theorem nodeAt? {place : Place} {node : Node} (stands : first.nodeAt? place = some node) :
    second.nodeAt? place = some node := by
  cases place with
  | live location => exact grown.nodes location node stands
  | removed between above => exact stands

/-- A path leads to where it led before. -/
theorem locate {place : Place} (leads : first.locate path = .ok place) :
    second.locate path = .ok place := by
  have ends := locate_eq_ok_iff.mp leads
  refine locate_of_resolve grown.nodes grown.places (by simp) ?_ ends
  intro directory name impossible
  cases impossible

theorem isDirectory (stands : first.isDirectory path = true) : second.isDirectory path = true := by
  rw [FileSystem.isDirectory] at stands ⊢
  split at stands
  · next place found =>
    rw [grown.locate found]
    simpa using grown.nodeAt? (by simpa using stands)
  · cases stands

end Grown

/-- Whether a file system is well-formed and has grown from another one. -/
def Grows (first second : FileSystem) : Prop :=
  second.WellFormed ∧ Grown first second

theorem grows_refl (wellFormed : system.WellFormed) : Grows system system :=
  ⟨wellFormed, .refl system⟩

theorem Opens.grown (wellFormed : system.WellFormed) {handle : Handle} {opened : FileSystem}
    (opens : Opens system path (.ok handle opened)) : Grown system opened :=
  ⟨opens.keeps wellFormed, opens.workingDirectory⟩

/-! ## Calls that make and write -/

theorem Grows.keeps_makeDirectory (first : FileSystem) (path : Path) :
    Keeps (Grows first) (makeDirectory path) := by
  refine keeps_makeDirectory_of_put ?_
  rintro system directory name ⟨wellFormed, grown⟩ ends
  rcases resolve_holds wellFormed ends with ⟨stands, vacant, isName⟩
  exact ⟨wellFormed.put stands vacant isName trivial, grown.trans (.put (by simp) vacant)⟩

theorem Grows.keptByMaking (first : FileSystem) (path : Path) :
    KeptByMaking (Grows first) path :=
  fun upper _ _ => keeps_makeDirectory first upper

theorem grows_of_files {files : List File} (grows : Grows first system)
    (length : system.files.length ≤ files.length) : Grows first { system with files } :=
  ⟨grows.1.withFiles length, grows.2.trans ⟨fun _ _ => id, rfl⟩⟩

theorem Grows.keeps_write (first : FileSystem) (handle : Handle) (content : Content) :
    Keeps (Grows first) (write handle content) := by
  intro system grows
  cases handle with
  | sink =>
      exact grows
  | file id =>
      cases content with
      | archive entries =>
          exact grows_of_files grows (by simp)
      | plain bytes =>
          cases bytes with
          | nil => exact grows
          | cons byte more => exact grows_of_files grows (by simp)

theorem Grows.keptByWriting (first : FileSystem) (path : Path) :
    KeptByWriting (Grows first) path where
  opens := by
    rintro system ⟨wellFormed, grown⟩
    have kept := keeps_openToWrite path system wellFormed
    have opens := opens_openToWrite system path
    rw [stateAfter] at kept ⊢
    generalize openToWrite path system = result at opens kept
    cases result with
    | ok handle opened => exact ⟨kept, grown.trans (opens.grown wellFormed)⟩
    | error fault next =>
        cases opens
        exact ⟨wellFormed, grown⟩
  writes _ handle _ _ _ content := keeps_write first handle content
  grants _ handle _ _ _ mode := by
    intro system grows
    cases handle with
    | sink => exact grows
    | file id => exact grows_of_files grows (by simp)

/-! ## Directories that have been made -/

theorem Call.of_alter {change : FileSystem → Except Fault FileSystem}
    (ran : Call.alter change first = .ok () second) : change first = .ok second := by
  rw [Call.alter] at ran
  split at ran
  · next result changed =>
    cases ran
    exact changed
  · cases ran

theorem Call.eq_of_alter_error {change : FileSystem → Except Fault FileSystem} {fault : Fault}
    (ran : Call.alter change first = .error fault second) : second = first := by
  rw [Call.alter] at ran
  split at ran
  · cases ran
  · cases ran
    rfl

/-- A directory is made at a vacant name, or it is there already. -/
theorem admitDirectory_cases (made : admitDirectory path first = .ok () second) :
    (∃ directory name, first.resolve .entry path = .ok (.vacant directory name) ∧
        second = first.put (directory ++ [name]) .directory) ∨
      second = first ∧ first.isDirectory path = true := by
  rw [admitDirectory] at made
  split at made
  · next next ran =>
    cases made
    rcases exists_of_bind_eq_ok (Call.of_alter ran) with ⟨spot, ends, put⟩
    cases spot with
    | occupied place =>
        cases put
    | vacant directory name =>
        cases put
        exact .inl ⟨directory, name, ends, rfl⟩
  · next fault next ran =>
    cases Call.eq_of_alter_error ran
    split at made
    · next there =>
      cases made
      exact .inr ⟨rfl, there⟩
    · cases made

/-- A path to a vacant name means the directory that is put there. -/
theorem locate_put_of_vacant (wellFormed : first.WellFormed)
    (ends : first.resolve .entry path = .ok (.vacant directory name)) :
    (first.put (directory ++ [name]) .directory).locate path =
      .ok (.live (directory ++ [name])) := by
  have grown : Grown first (first.put (directory ++ [name]) .directory) :=
    .put (by simp) (resolve_holds wellFormed ends).2.1
  have stands : (first.put (directory ++ [name]) .directory).node? (directory ++ [name]) =
      some .directory := by
    rw [node?_put _ _ _ _ (by simp), if_pos rfl]
  exact locate_eq_ok_iff.mpr (designates_of_vacant grown.nodes grown.places stands ends).target

theorem isDirectory_of_admitDirectory (wellFormed : first.WellFormed)
    (made : admitDirectory path first = .ok () second) : second.isDirectory path = true := by
  rcases admitDirectory_cases made with ⟨directory, name, ends, rfl⟩ | ⟨rfl, there⟩
  · rw [FileSystem.isDirectory, locate_put_of_vacant wellFormed ends]
    simp [node?_put]
  · exact there

/-- A directory is admitted at once, or when what is above it has been made. -/
theorem exists_admitDirectory {above : List Path} (nonempty : path.bytes ≠ [])
    (made : makeDirectoryIn (path :: above) first = .ok () second) :
    ∃ middle, (middle = first ∨ makeDirectoryIn above first = .ok () middle) ∧
      admitDirectory path middle = .ok () second := by
  rw [makeDirectoryIn] at made
  simp only [if_neg nonempty] at made
  split at made
  · rw [SeqRight.seqRight] at made
    rcases exists_of_run_bind_eq_ok made with ⟨_, middle, ran, own⟩
    exact ⟨middle, .inr ran, own⟩
  · exact ⟨first, .inl rfl, made⟩

theorem wellFormed_of_makeDirectoryIn {above : List Path} (wellFormed : first.WellFormed)
    (made : makeDirectoryIn above first = .ok () second) : second.WellFormed :=
  (keeps_makeDirectoryIn fun upper _ _ => keeps_makeDirectory upper).of_ok wellFormed made

/-- A directory that has been made with everything above it is there. -/
theorem isDirectory_of_makeDirectories (wellFormed : first.WellFormed) (nonempty : path.bytes ≠ [])
    (made : makeDirectories path first = .ok () second) : second.isDirectory path = true := by
  rw [makeDirectories, Path.ancestors, Path.ancestorsUpTo] at made
  rcases exists_admitDirectory nonempty made with ⟨middle, rfl | ran, own⟩
  · exact isDirectory_of_admitDirectory wellFormed own
  · exact isDirectory_of_admitDirectory (wellFormed_of_makeDirectoryIn wellFormed ran) own

/-! ## Paths that end in a name -/

theorem isDirectory_iff :
    system.isDirectory path = true ↔
      ∃ place, system.locate path = .ok place ∧ system.nodeAt? place = some .directory := by
  rw [FileSystem.isDirectory]
  cases system.locate path <;> simp

/--
Whether names lead from a place to a directory when more names follow, and do so wherever their way
is kept.
-/
def LeadsOn (first : FileSystem) (links : Nat) (here : Place) (names : List Name)
    (directory : Location) : Prop :=
  ∃ left, ∀ second, KeepsWays first second → ∀ purpose rest, rest ≠ [] →
    resolveFrom second purpose links here (names ++ rest) false =
      resolveFrom second purpose left (.live directory) rest false

theorem leadsOn_nil (first : FileSystem) (links : Nat) (directory : Location) :
    LeadsOn first links (.live directory) [] directory :=
  ⟨links, fun _ _ _ _ _ => rfl⟩

theorem LeadsOn.step {next start : Place} {before : Name}
    (leads : LeadsOn first links next names directory)
    (steps : ∀ second, KeepsWays first second → ∀ purpose rest, rest ≠ [] →
      resolveFrom second purpose links start (before :: (names ++ rest)) false =
        resolveFrom second purpose links next (names ++ rest) false) :
    LeadsOn first links start (before :: names) directory := by
  rcases leads with ⟨left, goes⟩
  refine ⟨left, fun second keeps purpose rest more => ?_⟩
  rw [List.cons_append, steps second keeps purpose rest more, goes second keeps purpose rest more]

/-- Names that can be followed up to a last one lead on to the directory in which that is. -/
theorem Descends.leadsOn {following : Following} (neSelf : name ≠ selfName)
    (neParent : name ≠ parentName)
    (follows : ∀ directory target before names,
      first.node? (directory ++ [before]) = some (.link target) →
      Enters purpose false before (names ++ [name]) →
      following directory target (names ++ [name]) false = .ok spot →
      ∃ there, LeadsOn first links (.live directory) (before :: names) there)
    (descends : Descends first purpose following false here (names ++ [name]) spot) :
    ∃ there, LeadsOn first links here names there := by
  generalize whole : names ++ [name] = all at descends
  -- The last name can only be looked up in a directory, and there the names before it have led.
  induction descends generalizing names with
  | done =>
      simp at whole
  | self further hypothesis =>
      cases names with
      | nil =>
          cases whole
          exact absurd rfl neSelf
      | cons one more =>
          cases whole
          rcases hypothesis follows rfl with ⟨there, leads⟩
          exact ⟨there, leads.step fun _ _ _ _ _ => resolveFrom_self⟩
  | parent further hypothesis =>
      cases names with
      | nil =>
          cases whole
          exact absurd rfl neParent
      | cons one more =>
          cases whole
          rcases hypothesis follows rfl with ⟨there, leads⟩
          exact ⟨there, leads.step fun _ _ _ _ _ => resolveFrom_parent⟩
  | missing _ _ | kept _ _ _ | leaf _ _ _ _ _ =>
      cases names with
      | nil => exact ⟨_, leadsOn_nil ..⟩
      | cons one more => simp at whole
  | inside enters stands further hypothesis =>
      cases names with
      | nil =>
          exact ⟨_, leadsOn_nil ..⟩
      | cons one more =>
          cases whole
          rcases hypothesis follows rfl with ⟨there, leads⟩
          exact ⟨there, leads.step fun _ keeps _ _ _ =>
            resolveFrom_inside enters.bare (keeps.directories _ stands)⟩
  | followed enters stands _ further =>
      cases names with
      | nil =>
          exact ⟨_, leadsOn_nil ..⟩
      | cons one more =>
          cases whole
          exact follows _ _ _ _ stands enters further

theorem leadsOn_of_resolveFrom (neSelf : name ≠ selfName) (neParent : name ≠ parentName)
    (ends : resolveFrom first purpose links here (names ++ [name]) false = .ok spot) :
    ∃ there, LeadsOn first links here names there := by
  induction links generalizing here names with
  | zero =>
      refine Descends.leadsOn neSelf neParent ?_ (descend_eq_ok_iff.mp ends)
      intro _ _ _ _ _ _ impossible
      cases impossible
  | succ links hypothesis =>
      refine Descends.leadsOn neSelf neParent ?_ (descend_eq_ok_iff.mp ends)
      intro directory target before names stands enters follows
      have proper : ∀ {rest : List Name}, rest ≠ [] → ¬ names ++ rest = [] :=
        fun more empty => more (List.append_eq_nil_iff.mp empty).2
      simp only [if_neg (proper (List.cons_ne_nil name []))] at follows
      rw [← List.append_assoc] at follows
      rcases hypothesis follows with ⟨there, left, goes⟩
      refine ⟨there, left, fun second keeps purpose rest more => ?_⟩
      rw [List.cons_append, resolveFrom_followed enters.bare (keeps.links _ _ stands)
        fun ends => proper more ends.1, if_neg (proper more), ← List.append_assoc]
      exact goes second keeps purpose rest more

/-- A last name that can be followed is short enough, and stands or would stand in a directory. -/
theorem directory_of_last (wellFormed : first.WellFormed) (neSelf : name ≠ selfName)
    (neParent : name ≠ parentName)
    (ends : resolveFrom first purpose links (.live directory) [name] false = .ok spot)
    (holds : spot.Holds first purpose) :
    first.node? directory = some .directory ∧ name.length ≤ nameLimit := by
  have placed : ∀ {node}, first.node? (directory ++ [name]) = some node →
      first.node? directory = some .directory :=
    fun stands => (wellFormed.placed directory name (by simp [stands])).1
  cases resolveFrom_eq_ok_iff.mp ends with
  | self later => exact absurd rfl neSelf
  | parent later => exact absurd rfl neParent
  | missing enters vacant => exact ⟨holds.1, Nat.le_of_not_lt enters.short⟩
  | inside enters stands _ | kept enters stands _ | followed enters stands _ _
  | leaf enters stands _ _ _ => exact ⟨placed stands, Nat.le_of_not_lt enters.short⟩

/-- A path that can be resolved reaches its last name where the names before it lead. -/
theorem LeadsOn.reaches (leads : LeadsOn first linkLimit here names directory)
    (keeps : KeepsWays first second) (wellFormed : second.WellFormed)
    (endsInName : EndsInName path name) (whole : path.names = names ++ [name])
    (begins : first.start path = .ok here) (ends : second.resolve purpose path = .ok spot) :
    second.node? directory = some .directory ∧
      ∀ third, KeepsWays first third → third.Reaches path directory name := by
  have holds := resolve_holds wellFormed ends
  have starts : ∀ third, KeepsWays first third → third.start path = .ok here :=
    fun third keeps => by simpa [start, keeps.places] using begins
  rcases endsInName with ⟨last, neSelf, neParent, bare⟩
  rcases resolve_eq_ok_iff.mp ends with ⟨clean, _, begun, reached⟩
  cases (starts second keeps).symm.trans begun
  rw [bare, whole] at reached
  rcases leads with ⟨left, goes⟩
  have own := (goes second keeps purpose [name] (by simp)).symm.trans reached
  rcases directory_of_last wellFormed neSelf neParent own holds with ⟨stands, short⟩
  rcases isPiece_of_mem_names clean (List.mem_of_getLast? last) with ⟨nonempty, noSlash, noZero⟩
  refine ⟨stands, fun third keeps => ?_⟩
  refine ⟨⟨nonempty, noSlash, noZero, neSelf, neParent, short⟩, last, bare,
    ⟨clean, length_of_start begins, short⟩, left, fun purpose => ?_⟩
  rw [resolve, if_neg clean, starts third keeps, bare, whole]
  simp only [goes third keeps purpose [name] (by simp)]
  cases resolveFrom third purpose left (.live directory) [name] false <;> rfl

/--
Paths that differ in their last names only reach these in one directory, also if one of them can be
resolved later only, and they do so in every file system that keeps their way.
-/
theorem reaches_beside {beside : Name} {aim : Purpose} {goal : Spot}
    (wellFormed : first.WellFormed) (endsInName : EndsInName path name)
    (ends : first.resolve purpose path = .ok spot) (keeps : KeepsWays first second)
    (wellFormedLater : second.WellFormed) (endsBeside : EndsInName other beside)
    (found : second.resolve aim other = .ok goal)
    (same : other.names.dropLast = path.names.dropLast)
    (alike : other.isAbsolute = path.isAbsolute) :
    ∃ directory, first.node? directory = some .directory ∧
      ∀ third, KeepsWays first third →
        third.Reaches path directory name ∧ third.Reaches other directory beside := by
  have whole : path.names = path.names.dropLast ++ [name] :=
    (List.dropLast_append_getLast? name endsInName.last).symm
  have wholeBeside : other.names = path.names.dropLast ++ [beside] := by
    rw [← same]
    exact (List.dropLast_append_getLast? beside endsBeside.last).symm
  rcases resolve_eq_ok_iff.mp ends with ⟨-, here, begins, reached⟩
  rcases resolve_eq_ok_iff.mp found with ⟨-, there, begun, -⟩
  have beginsBeside : first.start other = .ok here := by
    have short := Nat.not_le_of_lt (length_of_start begins)
    have shortBeside := Nat.not_le_of_lt (length_of_start begun)
    rw [start, if_neg endsInName.nonempty, if_neg short] at begins
    rwa [start, if_neg endsBeside.nonempty, if_neg shortBeside, alike]
  rw [endsInName.bare, whole] at reached
  rcases leadsOn_of_resolveFrom endsInName.neSelf endsInName.neParent reached with
    ⟨directory, leads⟩
  rcases leads.reaches (.refl first) wellFormed endsInName whole begins ends with ⟨stands, reaches⟩
  rcases leads.reaches keeps wellFormedLater endsBeside wholeBeside beginsBeside found with
    ⟨-, alongside⟩
  exact ⟨directory, stands, fun third keeps => ⟨reaches third keeps, alongside third keeps⟩⟩

/-- A path that ends in a name and can be resolved reaches the name in a directory. -/
theorem reaches_of_resolve (wellFormed : first.WellFormed) (endsInName : EndsInName path name)
    (ends : first.resolve purpose path = .ok spot) :
    ∃ directory, first.node? directory = some .directory ∧
      ∀ second, KeepsWays first second → second.Reaches path directory name := by
  rcases reaches_beside wellFormed endsInName ends (.refl first) wellFormed endsInName ends rfl rfl
    with ⟨directory, stands, reaches⟩
  exact ⟨directory, stands, fun second keeps => (reaches second keeps).1⟩

/-! ## Places that are there -/

/-- From a directory that has not been removed nothing leads to one that has. -/
theorem Descends.live {following : Following}
    (follows : ∀ directory target rest slash spot,
      following directory target rest slash = .ok spot → ∃ location, spot.place = .live location)
    (descends : Descends system purpose following slash (.live directory) names spot) :
    ∃ location, spot.place = .live location := by
  generalize there : Place.live directory = here at descends
  induction descends generalizing directory with
  | done =>
      exact ⟨directory, there.symm⟩
  | self later hypothesis =>
      exact hypothesis there
  | parent later hypothesis =>
      cases there
      exact hypothesis rfl
  | inside enters stands later hypothesis =>
      exact hypothesis rfl
  | followed enters stands leads later =>
      exact follows _ _ _ _ _ later
  | missing _ _ | kept _ _ _ | leaf _ _ _ _ _ =>
      exact ⟨_, rfl⟩

theorem live_of_resolveFrom
    (ends : resolveFrom system purpose links (.live directory) names slash = .ok spot) :
    ∃ location, spot.place = .live location := by
  induction links generalizing directory names slash spot with
  | zero =>
      refine Descends.live ?_ (descend_eq_ok_iff.mp ends)
      intro _ _ _ _ _ impossible
      cases impossible
  | succ links hypothesis =>
      refine Descends.live ?_ (descend_eq_ok_iff.mp ends)
      intro _ _ _ _ _ follows
      exact hypothesis follows

theorem Reaches.live (reaches : system.Reaches path directory name)
    (ends : system.resolve purpose path = .ok spot) : ∃ location, spot.place = .live location := by
  rcases reaches.resolves with ⟨links, resolved⟩
  have mapped := (resolved purpose).symm.trans ends
  cases reached : resolveFrom system purpose links (.live directory) [name] false with
  | error refusal =>
      rw [reached] at mapped
      cases mapped
  | ok found =>
      rw [reached] at mapped
      cases mapped
      exact live_of_resolveFrom reached

/-! ## Removing what has been opened -/

/-- What has been opened is found at its path, and it is no directory. -/
theorem Opens.exists_locate (wellFormed : system.WellFormed) {handle : Handle}
    {opened : FileSystem} (opens : Opens system path (.ok handle opened)) :
    ∃ location node, opened.locate path = .ok (.live location) ∧
      opened.node? location = some node ∧ node ≠ .directory := by
  have grown := opens.grown wellFormed
  cases opens with
  | @made directory name ends =>
      have stands : (system.putFile (directory ++ [name]) ⟨freshMode, .plain []⟩).node?
          (directory ++ [name]) = some (.file system.files.length) := by
        rw [node?_putFile _ _ _ _ (by simp), if_pos rfl]
      refine ⟨directory ++ [name], _, ?_, stands, by simp⟩
      refine locate_of_resolve grown.nodes grown.places (by simp) ?_ ends
      rintro _ _ ⟨⟩
      exact ⟨rfl, _, stands⟩
  | emptied ends stands | swallowed ends stands =>
      refine ⟨_, _, ?_, stands, by simp⟩
      exact locate_of_resolve grown.nodes grown.places (by simp) (by simp) ends

/--
What has been opened for writing can be removed by the same path, if that ends in a name, and a path
to a directory is not lost with it.
-/
theorem removeFile_of_opens {handle : Handle} {opened last : FileSystem}
    (wellFormed : system.WellFormed) (endsInName : EndsInName path name)
    (opens : Opens system path (.ok handle opened)) (grows : Grows opened last)
    (directory : system.isDirectory other = true) :
    ∃ next, removeFile path last = .ok () next ∧ next.isDirectory other = true := by
  rcases grows with ⟨wellFormedLast, later⟩
  have grown : Grown system last := (opens.grown wellFormed).trans later
  rcases opens.exists_spot wellFormed with ⟨spot, ends, noDirectory⟩
  rcases reaches_of_resolve wellFormed endsInName ends with ⟨above, stands, reaches⟩
  have reached := reaches last grown.keepsWays
  rcases opens.exists_locate wellFormed with ⟨location, node, found, held, isLeaf⟩
  have located := locate_eq_ok_iff.mp (later.locate found)
  have entry : ∃ node, last.node? (above ++ [name]) = some node ∧ node ≠ .directory := by
    cases there : last.node? (above ++ [name]) with
    | none =>
        cases (reached.resolve_vacant .target there).symm.trans located
    | some node =>
        refine ⟨node, rfl, ?_⟩
        rintro rfl
        cases (reached.resolve_occupied .target there (.inr (by simp))).symm.trans located
        rw [later.nodes _ _ held] at there
        exact isLeaf (Option.some.inj there)
  rcases entry with ⟨node, there, leaf⟩
  refine ⟨_, removeFile_of_reaches reached there leaf, ?_⟩
  rcases isDirectory_iff.mp directory with ⟨place, leads, isPlace⟩
  have target := locate_eq_ok_iff.mp leads
  have apart : above ++ [name] ∉ system.lookedUp .target other := by
    intro member
    have same := eq_of_mem_lookedUp wellFormed stands (reaches system (.refl system)) ends
      noDirectory target member
    rw [same] at noDirectory
    exact noDirectory isPlace
  have kept : ∀ location node, system.node? location = some node → location ≠ above ++ [name] →
      ¬ above ++ [name] <+: location ∧
        (last.cut (above ++ [name])).node? location = some node := by
    intro location node before differs
    have now := grown.nodes location node before
    exact ⟨wellFormedLast.not_prefix_of_leaf there leaf (by simp [now]) differs,
      (wellFormedLast.node?_cut_leaf there leaf differs).trans now⟩
  have seen : ∀ entry ∈ system.lookedUp .target other,
      SeenAlike system (last.cut (above ++ [name])) (above ++ [name]) entry := by
    intro entry member
    rcases stands_of_mem_lookedUp leads member with ⟨node, before⟩
    have differs : entry ≠ above ++ [name] := by
      rintro rfl
      exact apart member
    rcases kept entry node before differs with ⟨outside, now⟩
    exact ⟨outside, now.trans before.symm⟩
  have places : (last.cut (above ++ [name])).workingDirectory =
      system.workingDirectory.without (above ++ [name]) :=
    congrArg (Place.without (above ++ [name])) grown.places
  have resolved := (resolve_moved (moves_without (by simp)) places seen).1
  rw [target] at resolved
  refine isDirectory_iff.mpr ⟨place.without (above ++ [name]),
    locate_eq_ok_iff.mpr resolved, ?_⟩
  cases place with
  | removed between higher =>
      simp only [Place.without]
      split <;> rfl
  | live location =>
      have differs : location ≠ above ++ [name] := by
        rintro rfl
        rw [grown.nodes _ _ isPlace] at there
        exact leaf (Option.some.inj there).symm
      rcases kept location .directory isPlace differs with ⟨outside, now⟩
      rw [Place.without_live outside]
      exact now

end BundlePacker.FileSystem
