import BundlePacker.FileSystem.Resolve

/-!
# Well-formed file systems

In a well-formed file system everything stands in a directory, under a proper name; every name of a
file means a file that is there; links lead somewhere as far as they are written; and the working
directory is a directory, or was one and still knows the directory above it.  The elementary changes
keep this as long as something new is put on a vacant name, and a resolution in a well-formed file
system only ends at a node or at a vacant name.
-/

namespace BundlePacker.FileSystem

/-- The names that an entry of a directory can have. -/
structure IsName (name : Name) : Prop where
  nonempty : name ≠ []
  no_slash : Path.slash ∉ name
  no_zero : (0 : UInt8) ∉ name
  ne_self : name ≠ selfName
  ne_parent : name ≠ parentName
  short : name.length ≤ nameLimit

instance (name : Name) : Decidable (IsName name) :=
  decidable_of_iff
    (name ≠ [] ∧ Path.slash ∉ name ∧ (0 : UInt8) ∉ name ∧ name ≠ selfName ∧ name ≠ parentName ∧
      name.length ≤ nameLimit)
    ⟨fun ⟨nonempty, no_slash, no_zero, ne_self, ne_parent, short⟩ =>
        ⟨nonempty, no_slash, no_zero, ne_self, ne_parent, short⟩,
      fun ⟨nonempty, no_slash, no_zero, ne_self, ne_parent, short⟩ =>
        ⟨nonempty, no_slash, no_zero, ne_self, ne_parent, short⟩⟩

/-- The location of the tree that a place is or was at or below. -/
def Place.anchor : Place → Location
  | live here => here
  | removed _ above => above

theorem Place.anchor_without (location : Location) (place : Place) :
    (place.without location).anchor =
      if location <+: place.anchor then location.dropLast else place.anchor := by
  cases place with
  | live here => by_cases inside : location <+: here <;> simp [without, anchor, inside]
  | removed _ above => by_cases inside : location <+: above <;> simp [without, anchor, inside]

theorem Place.anchor_withoutBelow (location : Location) (place : Place) :
    (place.withoutBelow location).anchor =
      if location <+: place.anchor ∧ place.anchor ≠ location then location
      else place.anchor := by
  cases place with
  | live here =>
    by_cases inside : location <+: here ∧ here ≠ location <;> simp [withoutBelow, anchor, inside]
  | removed _ above =>
    by_cases inside : location <+: above ∧ above ≠ location <;> simp [withoutBelow, anchor, inside]

/-- A place at or below a directory that is there is itself a directory. -/
theorem nodeAt?_of_anchor {system : FileSystem} {place : Place}
    (above : system.node? place.anchor = some .directory) :
    system.nodeAt? place = some .directory := by
  cases place with
  | live location => exact above
  | removed _ _ => rfl

/-- Whether a node can stand in a file system as far as the node itself is concerned. -/
def Node.Fits (system : FileSystem) : Node → Prop
  | directory | special _ => True
  | file id => id < system.files.length
  | link target => target.bytes ≠ [] ∧ (0 : UInt8) ∉ target.bytes

/-- Every node stands in a directory under a name, and is what it says. -/
structure WellFormed (system : FileSystem) : Prop where
  placed : ∀ directory name, system.node? (directory ++ [name]) ≠ none →
    system.node? directory = some .directory ∧ IsName name
  fits : ∀ location node, system.node? location = some node → node.Fits system
  anchored : system.node? system.workingDirectory.anchor = some .directory

/-! ## What stands above and below a node -/

namespace WellFormed

theorem node?_dropLast {system : FileSystem} (well_formed : system.WellFormed) {location : Location}
    (stands : system.node? location ≠ none) (below_root : location ≠ []) :
    system.node? location.dropLast = some .directory := by
  rw [← List.dropLast_concat_getLast below_root] at stands
  exact (well_formed.placed _ _ stands).1

theorem directory_dropLast {system : FileSystem} (well_formed : system.WellFormed)
    {location : Location} (stands : system.node? location = some .directory) :
    system.node? location.dropLast = some .directory := by
  by_cases at_root : location = []
  · subst at_root
    simp
  · exact well_formed.node?_dropLast (by simp [stands]) at_root

/-- Above anything that stands there is nothing but directories. -/
theorem node?_above {system : FileSystem} (well_formed : system.WellFormed)
    {above location : Location} (stands : system.node? location ≠ none)
    (inside : above <+: location) (proper : location ≠ above) :
    system.node? above = some .directory := by
  obtain ⟨rest, rfl⟩ := inside
  induction rest generalizing above with
  | nil => simp at proper
  | cons name others hypothesis =>
    rw [List.append_cons] at stands
    by_cases last : others = []
    · subst last
      exact (well_formed.placed above name (by simpa using stands)).1
    · have next := hypothesis stands (by simpa using last)
      exact (well_formed.placed above name (by simp [next])).1

theorem fits_at {system : FileSystem} (well_formed : system.WellFormed) {place : Place}
    {node : Node} (stands : system.nodeAt? place = some node) : node.Fits system := by
  cases place with
  | live location => exact well_formed.fits location node stands
  | removed between above =>
    cases stands
    trivial

/-- Below anything but a directory nothing stands. -/
theorem node?_below {system : FileSystem} (well_formed : system.WellFormed)
    {above location : Location} (leaf : system.node? above ≠ some .directory)
    (inside : above <+: location) (proper : location ≠ above) :
    system.node? location = none := by
  refine Classical.byContradiction fun stands => ?_
  exact leaf (well_formed.node?_above stands inside proper)

end WellFormed

/-! ## The elementary changes -/

theorem wellFormed_empty : WellFormed empty where
  placed := by
    intro directory name stands
    simp [node?, empty] at stands
  fits := by
    intro location node stands
    by_cases at_root : location = []
    · subst at_root
      rw [node?_root] at stands
      cases stands
      trivial
    · simp [node?, empty, at_root] at stands
  anchored := by simp [Place.anchor, empty]

namespace WellFormed

/-- A node can be put on a vacant name of a directory. -/
theorem put {system : FileSystem} (well_formed : system.WellFormed) {directory : Location}
    {name : Name} {node : Node} (stands : system.node? directory = some .directory)
    (vacant : system.node? (directory ++ [name]) = none) (is_name : IsName name)
    (fits : node.Fits system) : (system.put (directory ++ [name]) node).WellFormed where
  placed := by
    intro other_directory other_name other_stands
    rw [node?_put _ _ _ _ (by simp)] at other_stands ⊢
    split at other_stands
    · next same =>
      obtain ⟨rfl, same_name⟩ := List.append_inj' same rfl
      cases same_name
      have differs : directory ++ [name] ≠ directory := by simp
      simp [differs, stands, is_name]
    · obtain ⟨parent, other_is_name⟩ := well_formed.placed _ _ other_stands
      have differs : directory ++ [name] ≠ other_directory := by
        rintro rfl
        simp [vacant] at parent
      simp [differs, parent, other_is_name]
  fits := by
    intro location found other_stands
    rw [node?_put _ _ _ _ (by simp)] at other_stands
    split at other_stands
    · cases other_stands
      cases node <;> exact fits
    · have old := well_formed.fits _ _ other_stands
      cases found <;> exact old
  anchored := by
    have anchored := well_formed.anchored
    have differs : directory ++ [name] ≠ system.workingDirectory.anchor := by
      intro same
      rw [← same, vacant] at anchored
      cases anchored
    show (system.put (directory ++ [name]) node).node? system.workingDirectory.anchor = _
    rw [node?_put _ _ _ _ (by simp), if_neg differs]
    exact anchored

/-- The working directory may move to any place in or above which a directory stands. -/
theorem moveTo {system : FileSystem} (well_formed : system.WellFormed) {place : Place}
    (stands : system.node? place.anchor = some .directory) :
    WellFormed { system with workingDirectory := place } where
  placed := well_formed.placed
  fits := by
    intro other node other_stands
    have old := well_formed.fits other node other_stands
    cases node <;> exact old
  anchored := stands

/-- What stands at a location can be taken away with everything below it. -/
theorem cut {system : FileSystem} (well_formed : system.WellFormed) {location : Location}
    (stands : system.node? location ≠ none) (below_root : location ≠ []) :
    (system.cut location).WellFormed where
  placed := by
    intro directory name other_stands
    rw [node?_cut _ _ _ below_root] at other_stands ⊢
    split at other_stands
    · simp at other_stands
    · next outside =>
      obtain ⟨parent, is_name⟩ := well_formed.placed _ _ other_stands
      have parent_outside : ¬ location <+: directory := fun inside =>
        outside (inside.trans (List.prefix_append ..))
      simp [parent_outside, parent, is_name]
  fits := by
    intro other node other_stands
    rw [node?_cut _ _ _ below_root] at other_stands
    split at other_stands
    · simp at other_stands
    · have old := well_formed.fits other node other_stands
      cases node <;> exact old
  anchored := by
    have parent := well_formed.node?_dropLast stands below_root
    have parent_outside : ¬ location <+: location.dropLast := by
      intro inside
      have shorter := inside.length_le
      have positive := List.length_pos_iff.mpr below_root
      simp only [List.length_dropLast] at shorter
      omega
    show (system.cut location).node? (system.workingDirectory.without location).anchor = _
    rw [node?_cut _ _ _ below_root, Place.anchor_without]
    by_cases inside : location <+: system.workingDirectory.anchor
    · simp [inside, parent_outside, parent]
    · simp [inside, well_formed.anchored]

/-- A directory can be emptied. -/
theorem clear {system : FileSystem} (well_formed : system.WellFormed) {location : Location}
    (stands : system.node? location = some .directory) : (system.clear location).WellFormed := by
  have node?_kept : ∀ other, ¬ (location <+: other ∧ other ≠ location) →
      (system.clear location).node? other = system.node? other := by
    intro other outside
    by_cases at_root : other = []
    · subst at_root
      simp
    · rw [node?_clear _ _ _ at_root, if_neg outside]
  have node?_gone : ∀ other, location <+: other ∧ other ≠ location →
      (system.clear location).node? other = none := by
    intro other inside
    have below_root : other ≠ [] := by
      rintro rfl
      exact inside.2 (List.prefix_nil.mp inside.1).symm
    rw [node?_clear _ _ _ below_root, if_pos inside]
  constructor
  · intro directory name other_stands
    by_cases inside : location <+: directory ++ [name] ∧ directory ++ [name] ≠ location
    · exact absurd (node?_gone _ inside) other_stands
    · rw [node?_kept _ inside] at other_stands
      obtain ⟨parent, is_name⟩ := well_formed.placed _ _ other_stands
      refine ⟨?_, is_name⟩
      rw [node?_kept]
      · exact parent
      · rintro ⟨above, proper⟩
        refine inside ⟨above.trans (List.prefix_append ..), ?_⟩
        rintro rfl
        have shorter := above.length_le
        simp only [List.length_append, List.length_singleton] at shorter
        omega
  · intro other node other_stands
    by_cases inside : location <+: other ∧ other ≠ location
    · simp [node?_gone _ inside] at other_stands
    · rw [node?_kept _ inside] at other_stands
      have old := well_formed.fits other node other_stands
      cases node <;> exact old
  · show (system.clear location).node? (system.workingDirectory.withoutBelow location).anchor = _
    rw [Place.anchor_withoutBelow]
    split
    · rw [node?_kept _ (by simp)]
      exact stands
    · next outside =>
      rw [node?_kept _ outside]
      exact well_formed.anchored

/-- A change of files alone keeps the tree, as long as no file is lost. -/
theorem withFiles {system : FileSystem} (well_formed : system.WellFormed) {files : List File}
    (grows : system.files.length ≤ files.length) : WellFormed { system with files } where
  placed := well_formed.placed
  fits := by
    intro location node stands
    have old := well_formed.fits location node stands
    cases node with
    | file id => exact Nat.lt_of_lt_of_le old grows
    | directory => trivial
    | special _ => trivial
    | link _ => exact old
  anchored := well_formed.anchored

theorem setContent {system : FileSystem} (well_formed : system.WellFormed) (id : Nat)
    (content : Content) : (system.setContent id content).WellFormed :=
  well_formed.withFiles (by simp)

theorem setMode {system : FileSystem} (well_formed : system.WellFormed) (id : Nat) (mode : Mode) :
    (system.setMode id mode).WellFormed :=
  well_formed.withFiles (by simp)

theorem addFile {system : FileSystem} (well_formed : system.WellFormed) (file : File) :
    (system.addFile file).WellFormed :=
  well_formed.withFiles (by simp)

end WellFormed

/-! ## Where resolutions end -/

/-- A piece of a path that can be looked up in a directory. -/
def IsPiece (piece : Bytes) : Prop :=
  piece ≠ [] ∧ Path.slash ∉ piece ∧ (0 : UInt8) ∉ piece

theorem isPiece_of_mem_names {path : Path} (clean : (0 : UInt8) ∉ path.bytes) {piece : Bytes}
    (member : piece ∈ path.names) : IsPiece piece := by
  simp only [Path.names, List.mem_filter, decide_eq_true_eq] at member
  exact ⟨member.2, Path.slash_not_mem_of_mem_segments member.1,
    fun zero => clean (Path.mem_of_mem_segments member.1 zero)⟩

/-- What is known about the end of a resolution. -/
def Spot.Holds (system : FileSystem) (purpose : Purpose) : Spot → Prop
  | occupied (.live location) =>
    ∃ node, system.node? location = some node ∧
      (purpose ≠ .entry → ∀ target, node ≠ .link target)
  | occupied (.removed _ above) => system.node? above = some .directory
  | vacant directory name =>
    system.node? directory = some .directory ∧ system.node? (directory ++ [name]) = none ∧
      IsName name

theorem WellFormed.anchor_parent {system : FileSystem} (well_formed : system.WellFormed)
    {place : Place} (stands : system.node? place.anchor = some .directory) :
    system.node? place.parent.anchor = some .directory := by
  cases place with
  | live location => exact well_formed.directory_dropLast stands
  | removed between above => cases between <;> exact stands

theorem descend_holds {system : FileSystem} (well_formed : system.WellFormed) {purpose : Purpose}
    {following : Following}
    (follows : ∀ here target rest slash spot, system.node? here = some .directory →
      target.bytes ≠ [] ∧ (0 : UInt8) ∉ target.bytes → (∀ piece ∈ rest, IsPiece piece) →
      following here target rest slash = .ok spot → spot.Holds system purpose)
    {here : Place} {names : List Name} {slash : Bool} {spot : Spot}
    (stands : system.node? here.anchor = some .directory) (pieces : ∀ piece ∈ names, IsPiece piece)
    (ends : descend system purpose following here names slash = .ok spot) :
    spot.Holds system purpose := by
  induction names generalizing here with
  | nil =>
    simp only [descend, Except.ok.injEq] at ends
    subst ends
    cases here with
    | live location => exact ⟨_, stands, by simp⟩
    | removed between above => exact stands
  | cons name rest hypothesis =>
    have later : ∀ piece ∈ rest, IsPiece piece := fun piece member =>
      pieces piece (List.mem_cons_of_mem _ member)
    obtain ⟨nonempty, no_slash, no_zero⟩ := pieces name (List.mem_cons_self ..)
    simp only [descend] at ends
    split at ends
    · exact hypothesis stands later ends
    split at ends
    · exact hypothesis (well_formed.anchor_parent stands) later ends
    next ne_self ne_parent =>
    split at ends
    · cases ends
    cases here with
    | removed between above => cases ends
    | live location =>
      simp only at ends
      split at ends
      · cases ends
      next short =>
      split at ends
      · next vacant =>
        split at ends
        · cases ends
          exact ⟨stands, vacant,
            ⟨nonempty, no_slash, no_zero, ne_self, ne_parent, Nat.le_of_not_lt short⟩⟩
        · cases ends
      · next found =>
        have inside : system.node? (Place.live (location ++ [name])).anchor = some .directory :=
          found
        exact hypothesis inside later ends
      · next target found =>
        split at ends
        · next last =>
          cases ends
          exact ⟨_, found, fun other => absurd last.2 other⟩
        · exact follows _ _ _ _ _ stands (well_formed.fits _ _ found) later ends
      · next node no_directory no_link found =>
        split at ends
        · cases ends
          exact ⟨node, found, fun _ target same => no_link target same⟩
        · cases ends

theorem resolveFrom_holds {system : FileSystem} (well_formed : system.WellFormed)
    {purpose : Purpose} {links : Nat} {here : Place} {names : List Name} {slash : Bool}
    {spot : Spot} (stands : system.node? here.anchor = some .directory)
    (pieces : ∀ piece ∈ names, IsPiece piece)
    (ends : resolveFrom system purpose links here names slash = .ok spot) :
    spot.Holds system purpose := by
  induction links generalizing here names slash spot with
  | zero =>
    refine descend_holds well_formed ?_ stands pieces ends
    intro _ _ _ _ _ _ _ _ impossible
    cases impossible
  | succ links hypothesis =>
    refine descend_holds well_formed ?_ stands pieces ends
    intro next target rest slash spot next_stands clean later follows
    refine hypothesis ?_ ?_ follows
    · simp only [Place.anchor]
      split
      · simp
      · exact next_stands
    · intro piece member
      rcases List.mem_append.mp member with inside | after
      · exact isPiece_of_mem_names clean.2 inside
      · exact later piece after

/-- A resolution starts in a directory. -/
theorem start_holds {system : FileSystem} (well_formed : system.WellFormed) {path : Path}
    {here : Place} (begins : system.start path = .ok here) :
    system.node? here.anchor = some .directory := by
  simp only [start] at begins
  split at begins
  · cases begins
  split at begins
  · cases begins
  split at begins
  · cases begins
    simp [Place.anchor]
  · cases begins
    exact well_formed.anchored

/-- In a well-formed file system a resolution ends at a node or at a vacant name of a directory. -/
theorem resolve_holds {system : FileSystem} (well_formed : system.WellFormed) {purpose : Purpose}
    {path : Path} {spot : Spot} (ends : system.resolve purpose path = .ok spot) :
    spot.Holds system purpose := by
  obtain ⟨clean, here, begins, reached⟩ := resolve_eq_ok_iff.mp ends
  exact resolveFrom_holds well_formed (start_holds well_formed begins)
    (fun piece member => isPiece_of_mem_names clean member) reached

/-! ## Paths that can not mean the root -/

theorem descend_entry_ne_root {system : FileSystem} {following : Following} {last : Name}
    (follows : ∀ here target rest slash location, rest.getLast? = some last →
      following here target rest slash = .ok (.occupied (.live location)) → location ≠ [])
    (ne_self : last ≠ selfName) (ne_parent : last ≠ parentName)
    {here : Place} {location : Location} {names : List Name} {slash : Bool}
    (at_last : names.getLast? = some last)
    (ends : descend system .entry following here names slash = .ok (.occupied (.live location))) :
    location ≠ [] := by
  induction names generalizing here with
  | nil => simp at at_last
  | cons name rest hypothesis =>
    have later : rest ≠ [] → rest.getLast? = some last := by
      intro more
      rwa [List.getLast?_cons_of_ne_nil more] at at_last
    have only : rest = [] → name = last := by
      rintro rfl
      simpa using at_last
    simp only [descend] at ends
    split at ends
    · next is_self => exact hypothesis (later fun none => ne_self (only none ▸ is_self)) ends
    split at ends
    · next is_parent => exact hypothesis (later fun none => ne_parent (only none ▸ is_parent)) ends
    split at ends
    · cases ends
    cases here with
    | removed between above => cases ends
    | live directory =>
      simp only at ends
      split at ends
      · cases ends
      split at ends
      · split at ends <;> cases ends
      · by_cases more : rest = []
        · subst more
          simp only [descend, Except.ok.injEq, Spot.occupied.injEq, Place.live.injEq] at ends
          simp [← ends]
        · exact hypothesis (later more) ends
      · split at ends
        · cases ends
          simp
        · next follow => exact follows _ _ _ _ _ (later fun none => follow ⟨none, trivial⟩) ends
      · split at ends
        · cases ends
          simp
        · cases ends

theorem resolveFrom_entry_ne_root {system : FileSystem} {last : Name} (ne_self : last ≠ selfName)
    (ne_parent : last ≠ parentName) {links : Nat} {here : Place} {location : Location}
    {names : List Name} {slash : Bool} (at_last : names.getLast? = some last)
    (ends : resolveFrom system .entry links here names slash = .ok (.occupied (.live location))) :
    location ≠ [] := by
  induction links generalizing here location names slash with
  | zero =>
    refine descend_entry_ne_root ?_ ne_self ne_parent at_last ends
    intro _ _ _ _ _ _ impossible
    cases impossible
  | succ links hypothesis =>
    refine descend_entry_ne_root ?_ ne_self ne_parent at_last ends
    intro next target rest slash reached rest_last follows
    exact hypothesis (by simp [rest_last]) follows

/-- The entry that a path names by a proper name is never the root. -/
theorem resolve_entry_ne_root {system : FileSystem} {path : Path} {last : Name}
    {location : Location} (at_last : path.names.getLast? = some last) (ne_self : last ≠ selfName)
    (ne_parent : last ≠ parentName)
    (ends : system.resolve .entry path = .ok (.occupied (.live location))) : location ≠ [] := by
  obtain ⟨_, here, _, reached⟩ := resolve_eq_ok_iff.mp ends
  exact resolveFrom_entry_ne_root ne_self ne_parent at_last reached

end BundlePacker.FileSystem
