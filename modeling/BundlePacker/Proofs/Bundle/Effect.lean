import BundlePacker.Proofs.Bundle.Layout
import BundlePacker.Proofs.FileSystem.Deposit

/-!
# The effects of runs

Whatever a run does on its way, in the end it has changed nothing, or it has taken away what stood
at its staging location, or it has also put an archive to the location for it.

The main statements are about effects that come about one after the other: an effect that comes
about again changes nothing more, and the effects on the locations of two versions look alike in
either order.
-/

namespace BundlePacker.Bundle

open FileSystem
open Archive (Entry)

/-! ## The locations of versions -/

/-- The locations in a base directory that belong to a version. -/
def locations (base : Location) (version : String) : List Location :=
  [stagingLocation base version, archiveLocation base version]

section

variable {base : Location} {version other : String}

theorem stagingLocation_mem (base : Location) (version : String) :
    stagingLocation base version ∈ locations base version := by
  simp [locations]

theorem archiveLocation_mem (base : Location) (version : String) :
    archiveLocation base version ∈ locations base version := by
  simp [locations]

theorem name_injective (same : name version = name other) : version = other := by
  have texts := congrArg String.toList same
  simp only [name, String.toList_append, List.append_cancel_left_eq,
    List.append_cancel_right_eq] at texts
  exact String.toList_inj.mp texts

theorem stagingName_injective (same : stagingName version = stagingName other) :
    version = other := by
  rw [stagingName, stagingName, String.append_left_inj] at same
  exact name_injective same

theorem archiveName_injective (same : archiveName version = archiveName other) :
    version = other := by
  rw [archiveName, archiveName, String.append_left_inj] at same
  exact name_injective same

theorem stagingName_ne_archiveName (version other : String) :
    stagingName version ≠ archiveName other := by
  intro same
  have texts := congrArg (fun text => text.toList.getLast?) same
  simp [stagingName, archiveName, List.getLast?_append] at texts

/-- No location of a version is or lies below a location of another version. -/
theorem not_prefix_of_differs (differs : version ≠ other) {location further : Location}
    (member : location ∈ locations base version) (memberOther : further ∈ locations base other) :
    ¬ location <+: further := by
  intro inside
  have names : ∀ {one another : String},
      base ++ [Utf8.ofString one] <+: base ++ [Utf8.ofString another] → one = another := by
    intro one another within
    have same := within.eq_of_length (by simp)
    rw [List.append_cancel_left_eq, List.cons.injEq] at same
    exact Utf8.ofString_injective same.1
  rcases List.mem_pair.mp member with rfl | rfl <;>
    rcases List.mem_pair.mp memberOther with rfl | rfl
  · exact differs (stagingName_injective (names inside))
  · exact stagingName_ne_archiveName version other (names inside)
  · exact stagingName_ne_archiveName other version (names inside).symm
  · exact differs (archiveName_injective (names inside))

theorem not_prefix_base {location : Location} (member : location ∈ locations base version) :
    ¬ location <+: base := by
  rcases List.mem_pair.mp member with rfl | rfl <;> exact not_prefix_directory base _

theorem archiveLocation_ne_nil (base : Location) (version : String) :
    archiveLocation base version ≠ [] := by
  simp [archiveLocation]

end

/-! ## Effects -/

/-- What a run changes in the end. -/
inductive Effect where
  | nothing
  /-- What stood at the staging location is gone. -/
  | cleared
  /-- It is gone, and an archive with these entries has been put to its location. -/
  | delivered (entries : List Entry)

namespace Effect

/-- A file system once an effect on the locations of a version has come about. -/
def apply (base : Location) (version : String) : Effect → FileSystem → FileSystem
  | nothing, disk => disk
  | cleared, disk => disk.cut (stagingLocation base version)
  | delivered entries, disk =>
    (disk.cut (stagingLocation base version)).deposit (archiveLocation base version)
      (.archive entries)

variable {disk first second : FileSystem} {base : Location} {version other : String}

theorem filed (filed : disk.Filed) (effect : Effect) : (effect.apply base version disk).Filed := by
  have cut := filed.cut (stagingLocation_ne_nil base version)
  cases effect with
  | nothing => exact filed
  | cleared => exact cut
  | delivered entries => exact cut.deposit (archiveLocation_ne_nil base version)

/-- An effect on file systems that look alike leaves them alike. -/
theorem alike (alike : Alike first second) (filed : first.Filed) (filedSecond : second.Filed)
    (effect : Effect) :
    Alike (effect.apply base version first) (effect.apply base version second) := by
  have belowRoot := stagingLocation_ne_nil base version
  cases effect with
  | nothing => exact alike
  | cleared => exact alike.cut belowRoot
  | delivered entries =>
      exact (alike.cut belowRoot).deposit (filed.cut belowRoot) (filedSecond.cut belowRoot)
        (archiveLocation_ne_nil base version)

/-- An effect that takes a staging directory away has nothing to do with what was in it. -/
theorem apply_cut {effect : Effect} (acts : effect ≠ nothing) :
    effect.apply base version (disk.cut (stagingLocation base version)) =
      effect.apply base version disk := by
  have again := cut_cut disk (stagingLocation_ne_nil base version)
  cases effect with
  | nothing => exact absurd rfl acts
  | cleared => exact again
  | delivered entries => rw [apply, apply, again]

/-- An effect that comes about again changes nothing more. -/
theorem apply_apply (effect : Effect) :
    effect.apply base version (effect.apply base version disk) =
      effect.apply base version disk := by
  have belowRoot := stagingLocation_ne_nil base version
  cases effect with
  | nothing => rfl
  | cleared => exact cut_cut disk belowRoot
  | delivered entries =>
      rw [apply, apply, cut_deposit belowRoot (not_prefix_archiveLocation base version),
        cut_cut disk belowRoot, deposit_deposit_self (archiveLocation_ne_nil base version)]

/-- Where an archive is delivered it is seen afterwards, unless a file could not stand there. -/
theorem view?_delivered (filed : disk.Filed) (entries : List Entry) :
    ((delivered entries).apply base version disk).view? (archiveLocation base version) =
      deposited (.archive entries) (disk.view? (archiveLocation base version)) := by
  have belowRoot := stagingLocation_ne_nil base version
  rw [apply, view?_deposit_of_touches (filed.cut belowRoot) (archiveLocation_ne_nil base version)
    (.inl rfl), view?_cut _ belowRoot, if_neg (not_prefix_archiveLocation base version)]

section

variable {further : Location} (outside : ∀ location ∈ locations base version,
  ¬ location <+: further)

include outside

/-- Outside the locations of a version an effect changes no node. -/
theorem node?_apply (effect : Effect) :
    (effect.apply base version disk).node? further = disk.node? further := by
  have belowRoot := stagingLocation_ne_nil base version
  have cut : (disk.cut (stagingLocation base version)).node? further = disk.node? further := by
    rw [node?_cut _ _ _ belowRoot, if_neg (outside _ (stagingLocation_mem ..))]
  cases effect with
  | nothing => rfl
  | cleared => exact cut
  | delivered entries =>
      rw [apply, node?_deposit (archiveLocation_ne_nil base version), if_neg, cut]
      rintro ⟨-, rfl⟩
      exact outside _ (archiveLocation_mem ..) List.prefix_rfl

/-- Nor can anything else be seen there, if the archive had no second name. -/
theorem view?_apply (filed : disk.Filed) (sole : disk.Sole (archiveLocation base version))
    (effect : Effect) : (effect.apply base version disk).view? further = disk.view? further := by
  have belowRoot := stagingLocation_ne_nil base version
  have cut : (disk.cut (stagingLocation base version)).view? further = disk.view? further := by
    rw [view?_cut _ belowRoot, if_neg (outside _ (stagingLocation_mem ..))]
  cases effect with
  | nothing => rfl
  | cleared => exact cut
  | delivered entries =>
      have apart : archiveLocation base version ≠ further := by
        rintro rfl
        exact outside _ (archiveLocation_mem ..) List.prefix_rfl
      rw [apply, view?_deposit_of_apart (filed.cut belowRoot) (archiveLocation_ne_nil base version)
        ((sole.cut belowRoot).not_touches apart), cut]

end

/-- A path that passes by the locations of a version shows the same after an effect on them. -/
theorem shown_apply (wellFormed : disk.WellFormed)
    (sole : disk.Sole (archiveLocation base version)) {path : Path}
    (passesBy : ∀ location ∈ locations base version, ¬ disk.PassesThrough .target path location)
    (effect : Effect) :
    (effect.apply base version disk).shown path = disk.shown path ∧
      ∀ location, (effect.apply base version disk).PassesThrough .target path location ↔
        disk.PassesThrough .target path location := by
  have belowRoot := stagingLocation_ne_nil base version
  have cut := changedAt_cut disk belowRoot
  have passesByStaging := passesBy _ (stagingLocation_mem ..)
  have wellFormedBelow := wellFormed.cutAt belowRoot
  have shows := cut.shown_eq wellFormed passesByStaging
  have passes := cut.passesThrough_iff passesByStaging
  cases effect with
  | nothing => exact ⟨rfl, fun _ => Iff.rfl⟩
  | cleared => exact ⟨shows, passes⟩
  | delivered entries =>
      have deposit := changedAt_deposit wellFormedBelow (archiveLocation_ne_nil base version)
        (sole.cut belowRoot) (.archive entries)
      have passesByArchive := mt (passes _).mp (passesBy _ (archiveLocation_mem ..))
      exact ⟨(deposit.shown_eq wellFormedBelow passesByArchive).trans shows,
        fun location => (deposit.passesThrough_iff passesByArchive location).trans
          (passes location)⟩

/-- Effects on the locations of two versions look alike in either order. -/
theorem apply_comm (filed : disk.Filed) (differs : version ≠ other)
    (sole : disk.Sole (archiveLocation base version)) (one another : Effect) :
    Alike (one.apply base version (another.apply base other disk))
      (another.apply base other (one.apply base version disk)) := by
  have belowRoot := stagingLocation_ne_nil base version
  have belowRootOther := stagingLocation_ne_nil base other
  have belowArchive := archiveLocation_ne_nil base version
  have belowArchiveOther := archiveLocation_ne_nil base other
  have cuts := cut_comm disk
    (not_prefix_of_differs differs (stagingLocation_mem base _) (stagingLocation_mem base _))
    (not_prefix_of_differs differs.symm (stagingLocation_mem base _) (stagingLocation_mem base _))
  have outside := not_prefix_of_differs differs (stagingLocation_mem base _)
    (archiveLocation_mem base _)
  have outsideOther := not_prefix_of_differs differs.symm (stagingLocation_mem base _)
    (archiveLocation_mem base _)
  cases one with
  | nothing =>
      exact .refl _
  | cleared =>
      cases another with
      | nothing =>
          exact .refl _
      | cleared =>
          show Alike ((disk.cut _).cut _) ((disk.cut _).cut _)
          rw [cuts]
          exact .refl _
      | delivered later =>
          simp only [apply]
          rw [cut_deposit belowRoot outside, cuts]
          exact .refl _
  | delivered entries =>
      cases another with
      | nothing =>
          exact .refl _
      | cleared =>
          simp only [apply]
          rw [cut_deposit belowRootOther outsideOther, cuts]
          exact .refl _
      | delivered later =>
          simp only [apply]
          rw [cut_deposit belowRoot outside, cut_deposit belowRootOther outsideOther, cuts]
          have filedBelow := (filed.cut belowRootOther).cut belowRoot
          have soleBelow := (sole.cut belowRootOther).cut belowRoot
          have apart : archiveLocation base version ≠ archiveLocation base other := fun same =>
            not_prefix_of_differs differs (archiveLocation_mem base _) (archiveLocation_mem base _)
              (same ▸ List.prefix_rfl)
          exact (deposit_comm filedBelow (archiveLocation_ne_nil base _)
            (archiveLocation_ne_nil base _) (soleBelow.not_touches apart)).symm

end Effect

end BundlePacker.Bundle
