import BundlePacker.FileSystem.Alike
import BundlePacker.FileSystem.Preservation
import BundlePacker.Proofs.FileSystem.Lookup

/-!
# Changes of file systems

Where nothing stands nothing can be taken away, and what has been put somewhere can be changed once
more.  A change that keeps to the tree at a location leaves everything outside as it is, and adds
files at most.  The main statement is that such changes leave no trace once the tree is taken away.
-/

namespace BundlePacker.FileSystem

/-! ## Taking away what stands at a location -/

/-- Emptying a directory before it is taken away makes no difference. -/
theorem Place.without_withoutBelow {location : Location} (belowRoot : location ≠ [])
    (place : Place) : (place.withoutBelow location).without location = place.without location := by
  cases place with
  | live here =>
      by_cases inside : location <+: here
      · by_cases same : here = location
        · subst same
          simp [withoutBelow]
        · have deeper : location.length < here.length := by
            apply Nat.lt_of_le_of_ne inside.length_le
            intro equal
            exact same (inside.eq_of_length equal).symm
          simp only [withoutBelow, inside, same, without, ne_eq, not_false_eq_true, and_self,
            if_true, List.prefix_rfl]
          congr 1
          omega
      · simp [withoutBelow, without, inside]
  | removed between above =>
      by_cases inside : location <+: above
      · by_cases same : above = location
        · subst same
          simp [withoutBelow]
        · have deeper := inside.length_le
          simp only [withoutBelow, inside, same, without, ne_eq, not_false_eq_true, and_self,
            if_true, List.prefix_rfl]
          congr 1
          omega
      · simp [withoutBelow, without, inside]

variable {system : FileSystem} {location directory : Location} {name : Name}

theorem WellFormed.not_prefix_of_vacant (wellFormed : system.WellFormed)
    (vacant : system.node? location = none) {other : Location}
    (stands : system.node? other ≠ none) : ¬ location <+: other := by
  intro inside
  apply stands
  by_cases same : other = location
  · rw [same, vacant]
  · exact wellFormed.node?_below (by simp [vacant]) inside same

/-- Where nothing stands nothing is taken away. -/
theorem WellFormed.cut_of_vacant (wellFormed : system.WellFormed)
    (vacant : system.node? location = none) : system.cut location = system := by
  have belowRoot : location ≠ [] := by
    rintro rfl
    simp at vacant
  have nodes : (system.nodes.filter fun other _ => decide (¬ location <+: other)) =
      system.nodes := by
    apply Std.ExtTreeMap.ext_getElem?
    intro other
    rw [Std.ExtTreeMap.getElem?_filter']
    by_cases root : other = []
    · subst root
      cases system.nodes[([] : Location)]? <;> simp [belowRoot]
    · by_cases stands : system.node? other = none
      · have missing : system.nodes[other]? = none := by simpa [node?, root] using stands
        simp [missing]
      · have outside := wellFormed.not_prefix_of_vacant vacant stands
        cases system.nodes[other]? <;> simp [outside]
  have place : system.workingDirectory.without location = system.workingDirectory := by
    apply Place.without_of_outside
    exact wellFormed.not_prefix_of_vacant vacant (by simp [wellFormed.anchored])
  rw [FileSystem.cut, nodes, place]

/-- Nothing stands below something that is no directory. -/
theorem WellFormed.not_prefix_of_leaf (wellFormed : system.WellFormed) {node : Node}
    (stands : system.node? location = some node) (leaf : node ≠ .directory) {other : Location}
    (occupied : system.node? other ≠ none) (differs : other ≠ location) :
    ¬ location <+: other := by
  intro inside
  have directory := wellFormed.node?_above occupied inside differs
  rw [stands] at directory
  exact leaf (Option.some.inj directory)

/-- What is taken away with something that is no directory is that alone. -/
theorem WellFormed.node?_cut_leaf (wellFormed : system.WellFormed) {node : Node}
    (stands : system.node? location = some node) (leaf : node ≠ .directory) {other : Location}
    (differs : other ≠ location) : (system.cut location).node? other = system.node? other := by
  have belowRoot : location ≠ [] := by
    rintro rfl
    rw [node?_root] at stands
    exact leaf (Option.some.inj stands).symm
  rw [node?_cut _ _ _ belowRoot]
  split
  · next inside =>
    by_cases missing : system.node? other = none
    · exact missing.symm
    · exact absurd inside (wellFormed.not_prefix_of_leaf stands leaf missing differs)
  · rfl

theorem WellFormed.workingDirectory_cut_leaf (wellFormed : system.WellFormed) {node : Node}
    (stands : system.node? location = some node) (leaf : node ≠ .directory) :
    (system.cut location).workingDirectory = system.workingDirectory := by
  apply Place.without_of_outside
  have anchored := wellFormed.anchored
  refine wellFormed.not_prefix_of_leaf stands leaf (by simp [anchored]) ?_
  rintro same
  rw [same, stands] at anchored
  exact leaf (Option.some.inj anchored)

theorem WellFormed.cutAt (wellFormed : system.WellFormed) (belowRoot : location ≠ []) :
    (system.cut location).WellFormed := by
  by_cases vacant : system.node? location = none
  · rwa [wellFormed.cut_of_vacant vacant]
  · exact wellFormed.cut vacant belowRoot

theorem cut_clear (belowRoot : location ≠ []) :
    (system.clear location).cut location = system.cut location := by
  have nodes : ((system.clear location).nodes.filter fun other _ =>
      decide (¬ location <+: other)) =
      system.nodes.filter fun other _ => decide (¬ location <+: other) := by
    apply Std.ExtTreeMap.ext_getElem?
    intro other
    rw [clear, Std.ExtTreeMap.getElem?_filter', Std.ExtTreeMap.getElem?_filter',
      Std.ExtTreeMap.getElem?_filter']
    by_cases inside : location <+: other <;> cases system.nodes[other]? <;> simp [inside]
  rw [cut, cut, nodes]
  simp only [clear, Place.without_withoutBelow belowRoot]

/-! ## Putting a file somewhere -/

/-- Put a new file at a location. -/
def putFile (system : FileSystem) (location : Location) (file : File) : FileSystem :=
  (system.addFile file).put location (.file system.files.length)

theorem node?_putFile (system : FileSystem) (location other : Location) (file : File)
    (belowRoot : location ≠ []) :
    (system.putFile location file).node? other =
      if location = other then some (.file system.files.length) else system.node? other := by
  rw [putFile, node?_put _ _ _ _ belowRoot, node?_addFile]

theorem file?_putFile (system : FileSystem) (location : Location) (file : File) (id : Nat) :
    (system.putFile location file).file? id =
      if id = system.files.length then some file else system.file? id := by
  rw [putFile, file?_put, file?_addFile]

theorem modify_last {α : Type} (before : List α) (last : α) (change : α → α) :
    (before ++ [last]).modify before.length change = before ++ [change last] := by
  induction before with
  | nil =>
      rfl
  | cons head rest hypothesis =>
      simpa using hypothesis

/-- The file that has just been put somewhere takes content and mode. -/
theorem setContent_putFile (system : FileSystem) (location : Location) (file : File)
    (content : Content) :
    (system.putFile location file).setContent system.files.length content =
      system.putFile location ⟨lowered file.mode, content⟩ := by
  simp [putFile, put, addFile, setContent, modify_last]

theorem setMode_putFile (system : FileSystem) (location : Location) (file : File) (mode : Mode) :
    (system.putFile location file).setMode system.files.length mode =
      system.putFile location { file with mode } := by
  simp [putFile, put, addFile, setMode, modify_last]

theorem WellFormed.putFile (wellFormed : system.WellFormed)
    (stands : system.node? directory = some .directory)
    (vacant : system.node? (directory ++ [name]) = none) (isName : IsName name) (file : File) :
    (system.putFile (directory ++ [name]) file).WellFormed :=
  (wellFormed.addFile file).put stands vacant isName (by simp [Node.Fits, FileSystem.addFile])

/-! ## Changes that keep to a tree -/

/-- Whether a file system has come from another one by changes within the tree at a location. -/
structure ChangedWithin (location : Location) (first second : FileSystem) : Prop where
  nodes : ∀ other, ¬ location <+: other → second.node? other = first.node? other
  places : second.workingDirectory = first.workingDirectory
  files : first.files <+: second.files

theorem file?_of_grown {first second : FileSystem} (files : first.files <+: second.files)
    {id : Nat} (known : id < first.files.length) : second.file? id = first.file? id := by
  rcases files with ⟨more, grown⟩
  rw [file?, file?, ← grown, List.getElem?_append_left known]

theorem alike_of_files {first second : FileSystem} (wellFormed : first.WellFormed)
    (nodes : ∀ other, second.node? other = first.node? other)
    (places : second.workingDirectory = first.workingDirectory)
    (files : first.files <+: second.files) : Alike second first := by
  refine ⟨?_, ?_, places⟩
  · intro other
    rw [view?, view?, nodes]
    cases stands : first.node? other with
    | none =>
        rfl
    | some node =>
        cases node with
        | file id =>
            have known : id < first.files.length := wellFormed.fits other _ stands
            simp only [file?_of_grown files known]
        | directory | link _ | special _ =>
            rfl
  · intro one other
    simp only [SameFile, nodes]

namespace ChangedWithin

variable {first second third : FileSystem}

theorem refl (location : Location) (system : FileSystem) : ChangedWithin location system system :=
  ⟨fun _ _ => rfl, rfl, List.prefix_rfl⟩

theorem trans (changed : ChangedWithin location first second)
    (later : ChangedWithin location second third) : ChangedWithin location first third :=
  ⟨fun other outside => (later.nodes other outside).trans (changed.nodes other outside),
    later.places.trans changed.places, changed.files.trans later.files⟩

theorem put {node : Node} {inner : Location} (belowRoot : location ≠ [])
    (inside : location <+: inner) : ChangedWithin location system (system.put inner node) := by
  refine ⟨?_, rfl, List.prefix_rfl⟩
  intro other outside
  have innerBelow : inner ≠ [] := by
    rintro rfl
    exact belowRoot (List.prefix_nil.mp inside)
  rw [node?_put _ _ _ _ innerBelow, if_neg]
  rintro rfl
  exact outside inside

theorem putFile {file : File} {inner : Location} (belowRoot : location ≠ [])
    (inside : location <+: inner) :
    ChangedWithin location system (system.putFile inner file) := by
  have added : ChangedWithin location system (system.addFile file) :=
    ⟨fun _ _ => rfl, rfl, List.prefix_append ..⟩
  exact added.trans (put belowRoot inside)

/-- Once the tree is taken away its changes can not be seen. -/
theorem alike_cut (changed : ChangedWithin location first second) (wellFormed : first.WellFormed)
    (belowRoot : location ≠ []) : Alike (second.cut location) (first.cut location) := by
  apply alike_of_files (wellFormed.cutAt belowRoot)
  · intro other
    rw [node?_cut _ _ _ belowRoot, node?_cut _ _ _ belowRoot]
    split
    · rfl
    · next outside =>
      exact changed.nodes other outside
  · exact congrArg (Place.without location) changed.places
  · exact changed.files

end ChangedWithin

end BundlePacker.FileSystem
