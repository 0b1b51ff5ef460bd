import Mathlib
import BundlePacker.Proofs.Bundle.Input
import BundlePacker.Proofs.Bundle.Verdict

/-!
# What a bundle leaves alone

On its way a run removes a tree, makes directories, copies a file and empties another one, all at
paths that it has put together.  None of this reaches beyond the two locations of the version: not
through links in an older staging directory, nor through one in its place, nor through the path of
the executable.

The main statement says that after a run that succeeds the archive is new, nothing stands at the
staging location, and everything else is what it was.
-/

namespace BundlePacker.Bundle

open FileSystem
open StagingDirectory
open Archive (Entry)

variable {session last : Session} {disk state : FileSystem} {base : Location} {version : String}

theorem noLink_of_isFile {location : Location}
    (isFile : ∀ node, disk.node? location = some node → ∃ id, node = .file id) (target : Path) :
    disk.node? location ≠ some (.link target) := by
  intro found
  rcases isFile _ found with ⟨id, impossible⟩
  cases impossible

/-- Whether nothing has changed but that a tree is gone and something was put to one location. -/
structure KeepsRest (before after : FileSystem) (tree archive : Location) : Prop where
  gone : ∀ location, tree <+: location → after.view? location = none
  views : ∀ location, ¬ tree <+: location → location ≠ archive →
    after.view? location = before.view? location
  names : ∀ one other, one ≠ other → ¬ tree <+: one → ¬ tree <+: other →
    (after.SameFile one other ↔ before.SameFile one other)
  places : after.workingDirectory = before.workingDirectory.without tree

/-- What has been delivered is the only change, if the archive had no second name. -/
theorem keepsRest_delivered (filed : disk.Filed)
    (sole : disk.Sole (archiveLocation base version)) (entries : List Entry) :
    KeepsRest disk ((Effect.delivered entries).apply base version disk)
      (stagingLocation base version) (archiveLocation base version) := by
  have belowRoot := stagingLocation_ne_nil base version
  have belowArchive := archiveLocation_ne_nil base version
  have filedBelow := filed.cut belowRoot
  have apart : ∀ {location}, archiveLocation base version ≠ location →
      ((disk.cut (stagingLocation base version)).deposit (archiveLocation base version)
        (.archive entries)).view? location =
          (disk.cut (stagingLocation base version)).view? location := fun differs =>
    view?_deposit_of_apart filedBelow belowArchive
      ((sole.cut belowRoot).not_touches differs)
  refine ⟨?_, ?_, ?_, workingDirectory_deposit ..⟩
  · intro location inside
    have differs : archiveLocation base version ≠ location := by
      rintro rfl
      exact not_prefix_archiveLocation base version inside
    exact (apart differs).trans ((view?_cut _ belowRoot _).trans (if_pos inside))
  · intro location outside differs
    exact (apart differs.symm).trans ((view?_cut _ belowRoot _).trans (if_neg outside))
  · intro one other differs outside outsideOther
    refine (sameFile_deposit filedBelow belowArchive differs).trans ?_
    rw [sameFile_cut belowRoot]
    exact and_iff_right ⟨outside, outsideOther⟩

theorem KeepsRest.of_alike {tree archive : Location}
    (keepsRest : KeepsRest disk state tree archive) {after : FileSystem}
    (alike : Alike after state) : KeepsRest disk after tree archive where
  gone location inside := (alike.views location).trans (keepsRest.gone location inside)
  views location outside differs :=
    (alike.views location).trans (keepsRest.views location outside differs)
  names one other differs outside outsideOther :=
    (alike.names one other).trans (keepsRest.names one other differs outside outsideOther)
  places := alike.places.trans keepsRest.places

/-- A run that succeeds has delivered some archive, wherever its executable was. -/
theorem create_ok_alike {executable path : Path} (wellFormed : session.disk.WellFormed)
    (stands : session.disk.node? base = some .directory) (noSlash : '/' ∉ version.toList)
    (noLink : ∀ target, session.disk.node? (archiveLocation base version) ≠ some (.link target))
    (made : create (pathOf base) executable version session = .ok path last) :
    ∃ entries, Alike last.disk ((Effect.delivered entries).apply base version session.disk) := by
  have ends := ends_create_pathOf wellFormed stands noSlash executable
  rw [made] at ends
  cases ends with
  | archived begins archives complete =>
      exact ⟨_, alike_delivered wellFormed stands noSlash noLink begins archives _⟩

/--
After a run that succeeds an archive stands at its location and nothing at the staging location or
below it.  Everything else is what it was, whatever the staging location held before and wherever
the executable was.
-/
theorem create_ok_keeps_rest {executable path : Path} (wellFormed : session.disk.WellFormed)
    (stands : session.disk.node? base = some .directory) (noSlash : '/' ∉ version.toList)
    (archiveIsFile : ∀ node, session.disk.node? (archiveLocation base version) = some node →
      ∃ id, node = .file id)
    (sole : session.disk.Sole (archiveLocation base version))
    (made : create (pathOf base) executable version session = .ok path last) :
    (∃ file entries, last.disk.view? (archiveLocation base version) = some (.file file) ∧
        file.content = .archive entries) ∧
      KeepsRest session.disk last.disk (stagingLocation base version)
        (archiveLocation base version) := by
  rcases create_ok_alike wellFormed stands noSlash (noLink_of_isFile archiveIsFile) made with
    ⟨entries, alike⟩
  refine ⟨?_, (keepsRest_delivered wellFormed.filed sole entries).of_alike alike⟩
  rw [alike.views, Effect.view?_delivered wellFormed.filed]
  cases found : session.disk.node? (archiveLocation base version) with
  | none =>
      rw [wellFormed.filed.view?_eq_none_iff.mpr found]
      exact ⟨_, entries, rfl, rfl⟩
  | some node =>
      rcases archiveIsFile node found with ⟨id, rfl⟩
      rcases wellFormed.filed.exists_file found with ⟨file, held⟩
      rw [view?_eq_file_iff.mpr ⟨id, found, held⟩]
      exact ⟨_, entries, rfl, rfl⟩

set_option maxRecDepth 8000 in
/-- A link in the place of the staging directory is gone, and the directory it led to is not. -/
theorem create_ok_keeps_rest_crowded :
    ∃ path last,
      create (pathOf [Utf8.ofString "lib"]) (.ofString "/sur") "1" ⟨crowded, []⟩ =
        .ok path last ∧
      last.disk.view? (stagingLocation [Utf8.ofString "lib"] "1") = none ∧
      last.disk.view? [Utf8.ofString "lib", Utf8.ofString "a", Utf8.ofString "b"] =
        some .directory := by
  have left : leavesArchive
      (create (pathOf [Utf8.ofString "lib"]) (.ofString "/sur") "1" ⟨crowded, []⟩) =
        some true := by
    simp only [create, assemble, addDescriptor_eq]
    generalize Utf8.ofString (Descriptor.forExecutable "1").render = bytes
    cases bytes <;> cbv
  rcases exists_of_leavesArchive_true left with ⟨path, last, made⟩
  have vacant : crowded.node? (archiveLocation [Utf8.ofString "lib"] "1") = none := by
    decide
  rcases create_ok_keeps_rest wellFormed_crowded (by decide) (by decide) (by simp [vacant])
    (sole_of_below (by simp [vacant])) made with ⟨-, rest⟩
  refine ⟨path, last, made, rest.gone _ List.prefix_rfl, ?_⟩
  exact (rest.views _ (by decide) (by decide)).trans (by decide)

end BundlePacker.Bundle
