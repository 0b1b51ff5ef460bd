import BundlePacker.Proofs.Bundle.Layout
import BundlePacker.Proofs.FileSystem.Crossing
import BundlePacker.Proofs.FileSystem.Directories

/-!
# The ground of a staging directory

A bundle is made in a directory to which some path leads, by links or dots or however it is written.
As long as that path does not need what stands at the place of the staging directory, it leads to
the same directory in every state of a run.  Then the paths of a bundle, which all extend it, arrive
at the names that are meant, and it does not matter any more how the path was written.
-/

namespace BundlePacker

open FileSystem

namespace StagingDirectory

/-- Whether a path leads to the directory of a site, and past the site itself. -/
structure Grounded (disk : FileSystem) (base : Path) (above : Location) (name : Name) : Prop
    extends Site disk above name where
  leads : disk.locate base = .ok (.live above)
  passesBy : ¬ disk.PassesThrough .target base (above ++ [name])

variable {disk state : FileSystem} {base path : Path} {above inner : Location} {name last : Name}

theorem Grounded.nonempty (grounded : Grounded disk base above name) : base.bytes ≠ [] :=
  Archive.bytes_ne_nil_of_locate grounded.leads

/-- A path is grounded where it sees what it saw before. -/
theorem Grounded.moved {move : Place → Place} (grounded : Grounded disk base above name)
    (wellFormed : state.WellFormed) (stands : state.node? above = some .directory)
    (moves : Moves (above ++ [name]) move)
    (places : state.workingDirectory = move disk.workingDirectory)
    (same : ∀ entry ∈ disk.lookedUp .target base, ¬ above ++ [name] <+: entry →
      state.node? entry = disk.node? entry) : Grounded state base above name := by
  rcases resolve_moved moves places (seenAlike_of_passing_by same grounded.passesBy) with
    ⟨resolved, looked⟩
  refine ⟨⟨wellFormed, stands, grounded.solid⟩, ?_, ?_⟩
  · rw [locate_eq_ok_iff, resolved, locate_eq_ok_iff.mp grounded.leads, Except.map, Spot.moved,
      moves.stays above (not_prefix_directory above name)]
  · rw [PassesThrough, looked]
    exact grounded.passesBy

theorem Grounded.cut (grounded : Grounded disk base above name) :
    Grounded (disk.cut (above ++ [name])) base above name := by
  rcases grounded.toSite.cut with ⟨wellFormed, stands, -⟩
  refine grounded.moved wellFormed stands (moves_without (by simp)) rfl ?_
  intro entry _ outside
  rw [node?_cut _ _ _ (by simp), if_neg outside]

/-- Emptying the staging directory does not matter. -/
theorem Grounded.clear (grounded : Grounded disk base above name)
    (directory : disk.node? (above ++ [name]) = some .directory) :
    Grounded (disk.clear (above ++ [name])) base above name := by
  have same : ∀ other, ¬ above ++ [name] <+: other →
      (disk.clear (above ++ [name])).node? other = disk.node? other := by
    intro other outside
    by_cases root : other = []
    · simp [root]
    · rw [node?_clear _ _ _ root, if_neg fun inside => outside inside.1]
  refine grounded.moved (grounded.wellFormed.clear directory)
    ((same above (not_prefix_directory above name)).trans grounded.stands)
    (moves_withoutBelow (by simp)) rfl fun entry _ outside => same entry outside

/-- A path that is grounded before a run is grounded in every state of the staging directory. -/
theorem Grounded.staged (grounded : Grounded disk base above name)
    (staged : Staged disk (above ++ [name]) state) : Grounded state base above name := by
  refine grounded.cut.moved staged.wellFormed ?_ (moves_id (by simp)) staged.changed.places ?_
  · exact (staged.changed.nodes above (not_prefix_directory above name)).trans
      grounded.cut.stands
  · intro entry _ outside
    exact staged.changed.nodes entry outside

/-- A path that extends a grounded one arrives at its last name. -/
theorem Grounded.arrives {directory : Location} (grounded : Grounded disk base above name)
    (shape : directory = above ++ inner) (stands : disk.node? directory = some .directory)
    (solid : IsSegment last) (longer : Extends path base (inner ++ [last])) :
    disk.Arrives path directory last := by
  subst shape
  exact arrives_of_extends grounded.wellFormed grounded.leads stands solid longer

theorem Grounded.arrives_here (grounded : Grounded disk base above name) (solid : IsSegment last)
    (longer : Extends path base [last]) : disk.Arrives path above last :=
  grounded.arrives (List.append_nil above).symm grounded.stands solid longer

theorem Grounded.arrives_inside (grounded : Grounded disk base above name)
    (stands : disk.node? (above ++ [name]) = some .directory) (solid : IsSegment last)
    (longer : Extends path base [name, last]) :
    disk.Arrives path (above ++ [name]) last :=
  grounded.arrives rfl stands solid longer

/-- A staging directory that stands is removed with everything in it. -/
theorem Grounded.removeTree_eq (grounded : Grounded disk base above name)
    (longer : Extends path base [name]) (admissible : Admissible path name)
    (stands : disk.node? (above ++ [name]) = some .directory) :
    removeTree path disk = .ok () (disk.cut (above ++ [name])) :=
  removeTree_directory ((grounded.arrives_here grounded.solid longer).reaches admissible)
    (((grounded.clear stands).arrives_here grounded.solid longer).reaches admissible) stands

/-! ## The paths of a bundle -/

theorem isSegment_binName : IsSegment binName :=
  (show IsName binName by decide).isSegment

theorem isSegment_executableName : IsSegment executableName :=
  (show IsName executableName by decide).isSegment

theorem isSegment_descriptorName : IsSegment descriptorName :=
  (show IsName descriptorName by decide).isSegment

theorem executablePath_eq (path : Path) :
    executablePath ⟨path⟩ = (path.join ⟨binName⟩).join ⟨executableName⟩ := by
  have shape : Utf8.ofString Descriptor.executablePath =
      binName ++ Path.slash :: executableName := by
    decide
  rw [Path.join_join path isSegment_binName.nonempty (endsInSlash_of_isSegment isSegment_binName)
    (isAbsolute_of_isSegment isSegment_binName)
    (isAbsolute_of_isSegment isSegment_executableName), executablePath, Path.ofString, shape]

theorem extends_binPath (longer : Extends path base [name]) :
    Extends (path.join ⟨binName⟩) base [name, binName] :=
  longer.trans (extends_join longer.nonempty isSegment_binName)

theorem extends_executablePath (longer : Extends path base [name]) :
    Extends (executablePath ⟨path⟩) base [name, binName, executableName] := by
  rw [executablePath_eq]
  have bin := extends_binPath longer
  exact bin.trans (extends_join bin.nonempty isSegment_executableName)

theorem parent?_executablePath (nonempty : path.bytes ≠ []) :
    (executablePath ⟨path⟩).parent? = some (path.join ⟨binName⟩) := by
  rw [executablePath_eq]
  exact parent?_join_join nonempty isSegment_binName isSegment_executableName

theorem extends_descriptorPath (longer : Extends path base [name]) :
    Extends (descriptorPath ⟨path⟩) base [name, descriptorName] :=
  longer.trans (extends_join longer.nonempty isSegment_descriptorName)

/--
Inside a staging directory that can be made a path is refused for its length only, and then the path
of the descriptor, which is the longest, is too long as well.
-/
theorem tooLong_of_refused {inner : Bytes} (admissible : Admissible path name)
    (longer : Extends path base [name]) (relative : Path.isAbsolute ⟨inner⟩ = false)
    (clean : (0 : UInt8) ∉ inner) (short : inner.length ≤ descriptorName.length)
    (fits : last.length ≤ nameLimit) (refused : ¬ Admissible (path.join ⟨inner⟩) last) :
    refusalOf (path.join ⟨inner⟩) = .refused .nameTooLong ∧
      ¬ Admissible (descriptorPath ⟨path⟩) descriptorName := by
  have bytes_join : ∀ {more : Bytes}, Path.isAbsolute ⟨more⟩ = false →
      (path.join ⟨more⟩).bytes = path.bytes ++ Path.slash :: more := by
    intro more isRelative
    simp [Path.join, isRelative, longer.bare, longer.nonempty]
  have differs : (0 : UInt8) ≠ Path.slash := by decide
  have joined : (0 : UInt8) ∉ (path.join ⟨inner⟩).bytes := by
    simp [bytes_join relative, admissible.clean, clean, differs]
  refine ⟨by rw [refusalOf, if_neg joined], fun other => refused ⟨joined, ?_, fits⟩⟩
  have least : (path.join ⟨descriptorName⟩).bytes.length < pathLimit := other.short
  rw [bytes_join (isAbsolute_of_isSegment isSegment_descriptorName)] at least
  rw [bytes_join relative]
  simp only [List.length_append, List.length_cons] at least ⊢
  exact Nat.lt_of_le_of_lt (by simpa using short) least

/-! ## Locations as grounds -/

/-- A directory can be a ground by the path of its location, if the system takes that path. -/
theorem grounded_pathOf (site : Site disk above name) (addressable : Addressable above) :
    Grounded disk (pathOf above) above name := by
  refine ⟨site, ?_, ?_⟩
  · rcases List.eq_nil_or_concat above with root | ⟨directory, last, shape⟩
    · subst root
      rfl
    · rw [List.concat_eq_append] at shape
      subst shape
      exact locate_eq_ok_iff.mpr (resolve_occupied site.wellFormed .target site.stands
        (.inr (by simp)) addressable)
  · rintro ⟨entry, member, inside⟩
    have within : entry <+: above := by
      rcases List.eq_nil_or_concat above with root | ⟨directory, last, shape⟩
      · subst root
        cases member
      · rw [List.concat_eq_append] at shape
        subst shape
        have entered := site.wellFormed.directory_above site.stands
        refine prefix_of_mem_lookedUp site.wellFormed entered
          (addressable.isSegment last (by simp)) ?_ entry member
        simp [site.stands]
    exact not_prefix_directory above name (inside.trans within)

end StagingDirectory

end BundlePacker
