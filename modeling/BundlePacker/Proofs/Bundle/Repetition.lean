import Mathlib
import BundlePacker.Proofs.Bundle.Frame

/-!
# Runs that are repeated

A run can find the leftovers of an earlier one: the staging directory of a run that was cut short,
or the archive of one that was not.

The main statements say that a leftover at the staging location makes no difference to how a run
ends, and that a run which succeeds can be repeated and changes nothing more.
-/

namespace BundlePacker.Bundle

open FileSystem
open StagingDirectory
open Archive (Entry)

variable {session last : Session} {disk : FileSystem} {base : Location}
  {executable path : Path} {version : String} {file : File}

/-! ## Leftovers -/

/-- Whether the staging path leads to a directory, or by a link in its place to anything. -/
structure Leftover (disk : FileSystem) (base : Location) (version : String) : Prop where
  kind : disk.node? (stagingLocation base version) = some .directory ∨
    ∃ target, disk.node? (stagingLocation base version) = some (.link target)
  present : disk.pathExists (stagingPath (pathOf base) version) = true

theorem addressable_of_present (wellFormed : disk.WellFormed)
    (stands : disk.node? base = some .directory) (noSlash : '/' ∉ version.toList)
    (present : disk.pathExists (stagingPath (pathOf base) version) = true) :
    Addressable (stagingLocation base version) := by
  apply Classical.byContradiction
  intro refused
  have refuses : disk.Refuses (stagingPath (pathOf base) version) := by
    rw [stagingPath_eq wellFormed stands noSlash]
    exact .of_not_addressable wellFormed stands (isSegment_stagingName noSlash) refused
  rw [pathExists_of_refuses refuses] at present
  cases present

theorem Leftover.free (leftover : Leftover disk base version)
    (addressable : Addressable (stagingLocation base version)) :
    obstacle disk base version = none := by
  rw [obstacle, if_pos addressable]
  rcases leftover.kind with found | ⟨target, found⟩
  · rw [view?_eq_directory_iff.mpr found]
  · simp [view?_eq_link_iff.mpr found, leftover.present]

/--
A run ends as it would have ended without the leftover at the staging path, whatever that holds or
leads to: with the same answer, and with file systems that look alike.
-/
theorem create_forgets_leftover (wellFormed : session.disk.WellFormed)
    (stands : session.disk.node? base = some .directory) (noSlash : '/' ∉ version.toList)
    (leftover : Leftover session.disk base version)
    (noLink : ∀ target, session.disk.node? (archiveLocation base version) ≠ some (.link target))
    (meansFile : MeansFile session.disk executable)
    (passesBy : ¬ session.disk.PassesThrough .target executable (stagingLocation base version))
    (log : List Event) :
    answer (create (pathOf base) executable version) session =
        answer (create (pathOf base) executable version)
          ⟨session.disk.cut (stagingLocation base version), log⟩ ∧
      Alike (stateAfter (create (pathOf base) executable version) session).disk
        (stateAfter (create (pathOf base) executable version)
          ⟨session.disk.cut (stagingLocation base version), log⟩).disk := by
  have belowRoot := stagingLocation_ne_nil base version
  have outside := not_prefix_archiveLocation base version
  have addressable := addressable_of_present wellFormed stands noSlash leftover.present
  have changed := changedAt_cut session.disk belowRoot
  have shows := changed.shown_eq wellFormed passesBy
  have gone : (session.disk.cut (stagingLocation base version)).view?
      (stagingLocation base version) = none := by
    rw [view?_cut _ belowRoot, if_pos List.prefix_rfl]
  have free := leftover.free addressable
  -- Both runs make their staging directory, and then they see the same.
  have same : verdict (session.disk.cut (stagingLocation base version)) base executable version =
      verdict session.disk base executable version :=
    verdict_congr shows ((obstacle_of_vacant addressable gone).trans free.symm)
      (changed.views _ outside)
  rcases shown_of_meansFile wellFormed meansFile with ⟨file, means⟩
  have acts := effect_ne_nothing means free
  rcases create_verdict session executable wellFormed stands noSlash noLink passesBy with
    ⟨answered, alike⟩
  have withoutLeftover := create_verdict
    ⟨session.disk.cut (stagingLocation base version), log⟩ executable (wellFormed.cutAt belowRoot)
    ((changed.nodes _ (not_prefix_directory _ _)).trans stands) noSlash
    (fun target found => noLink target ((changed.nodes _ outside).symm.trans found))
    (mt (changed.passesThrough_iff passesBy _).mp passesBy)
  simp only [same, Effect.apply_cut acts] at withoutLeftover
  rcases withoutLeftover with ⟨answeredLater, alikeLater⟩
  exact ⟨answered.trans answeredLater.symm, alike.trans alikeLater.symm⟩

/-- The first version is made over the staging directory that an earlier run has left. -/
theorem create_forgets_leftover_crowded :
    answer (create (pathOf []) (.ofString "/sur") "1") ⟨crowded, []⟩ =
        answer (create (pathOf []) (.ofString "/sur") "1")
          ⟨crowded.cut (stagingLocation [] "1"), []⟩ ∧
      Alike (stateAfter (create (pathOf []) (.ofString "/sur") "1") ⟨crowded, []⟩).disk
        (stateAfter (create (pathOf []) (.ofString "/sur") "1")
          ⟨crowded.cut (stagingLocation [] "1"), []⟩).disk := by
  have vacant : crowded.node? (archiveLocation [] "1") = none := by
    decide
  have meansFile : MeansFile crowded (.ofString "/sur") :=
    ⟨.live [Utf8.ofString "sur"], 0, by decide, by decide⟩
  exact create_forgets_leftover wellFormed_crowded rfl (by decide)
    ⟨.inl (by decide), by decide⟩ (by simp [vacant]) meansFile (by decide) []

/-! ## Running again -/

theorem exists_locate_of_shown {view : Option View} (shows : disk.shown path = .ok view) :
    ∃ place, disk.locate path = .ok place := by
  rw [shown] at shows
  cases found : disk.locate path with
  | ok place => exact ⟨place, rfl⟩
  | error fault =>
      rw [found] at shows
      cases shows

/-- A path to a file that is not the one at a location passes by the location, if that is a leaf. -/
theorem not_passesThrough_of_elsewhere (wellFormed : disk.WellFormed) {location : Location}
    {place : Place} (leaf : ∀ node, disk.node? location = some node → ∃ id, node = .file id)
    (found : disk.locate path = .ok place) (elsewhere : place ≠ .live location) :
    ¬ disk.PassesThrough .target path location := by
  rintro ⟨entry, member, inside⟩
  rcases stands_of_mem_lookedUp found member with ⟨node, standing⟩
  by_cases same : entry = location
  · subst same
    rcases leaf node standing with ⟨id, rfl⟩
    exact elsewhere
      ((crosses_of_mem_lookedUp (locate_eq_ok_iff.mp found) member).eq_of_file standing)
  · have directory := wellFormed.node?_above (by simp [standing]) inside same
    rcases leaf _ directory with ⟨id, impossible⟩
    cases impossible

/-- A run whose executable passes by the locations of the version finds everything as before. -/
theorem Delivers.again (delivers : Delivers disk base executable version file)
    (wellFormed : disk.WellFormed) (sole : disk.Sole (archiveLocation base version))
    (passesBy : ∀ location ∈ locations base version,
      ¬ disk.PassesThrough .target executable location) :
    Delivers ((Effect.delivered (entriesOf file version)).apply base version disk) base executable
      version file := by
  have rest := keepsRest_delivered wellFormed.filed sole (entriesOf file version)
  refine ⟨(Effect.shown_apply wellFormed sole passesBy _).1.trans delivers.shows,
    obstacle_of_vacant (addressable_of_free delivers.free) (rest.gone _ List.prefix_rfl),
    delivers.readable, delivers.fits, ?_⟩
  rw [Effect.view?_delivered wellFormed.filed]
  exact denial_deposited delivers.admits

/--
A run that has succeeded succeeds again, with the same answer, and leaves a file system that looks
like the one that it has found: the archive holds the same entries, and nothing else has changed.
-/
theorem create_again (wellFormed : session.disk.WellFormed)
    (stands : session.disk.node? base = some .directory) (noSlash : '/' ∉ version.toList)
    (passesBy : ¬ session.disk.PassesThrough .target executable (stagingLocation base version))
    (elsewhere : session.disk.locate executable ≠ .ok (.live (archiveLocation base version)))
    (archiveIsFile : ∀ node, session.disk.node? (archiveLocation base version) = some node →
      ∃ id, node = .file id)
    (sole : session.disk.Sole (archiveLocation base version))
    (made : create (pathOf base) executable version session = .ok path last)
    (log : List Event) :
    ∃ again, create (pathOf base) executable version ⟨last.disk, log⟩ = .ok path again ∧
      Alike again.disk last.disk := by
  have noLink := noLink_of_isFile archiveIsFile
  have kept : last.disk.WellFormed := (keeps_create _ _ _).of_ok wellFormed made
  rcases create_verdict session executable wellFormed stands noSlash noLink passesBy with
    ⟨answered, alike⟩
  rw [answer, made] at answered
  rw [stateAfter, made] at alike
  rcases exists_delivers_of_ok answered.symm with ⟨file, delivers⟩
  rw [delivers.verdict_eq] at answered alike
  have passes : ∀ location ∈ locations base version,
      ¬ session.disk.PassesThrough .target executable location := by
    intro location member
    rcases exists_locate_of_shown delivers.shows with ⟨place, found⟩
    rcases List.mem_pair.mp member with rfl | rfl
    · exact passesBy
    · refine not_passesThrough_of_elsewhere wellFormed archiveIsFile found ?_
      rintro rfl
      exact elsewhere found
  -- The second run is like one that starts from the effect of the first.
  have again := create_verdict_of_alike ⟨last.disk, log⟩ executable kept alike
    (Effect.filed wellFormed.filed _)
    ((Effect.node?_apply (fun _ => not_prefix_base) _).trans stands) noSlash ?_ ?_
  · rw [(delivers.again wellFormed sole passes).verdict_eq, Effect.apply_apply] at again
    rcases answer_eq_ok_iff.mp again.1 with ⟨final, ran⟩
    rw [stateAfter, ran] at again
    refine ⟨final, ran.trans ?_, again.2.trans alike.symm⟩
    rw [Except.ok.inj answered]
  · intro target found
    have seen := view?_eq_link_iff.mpr found
    rw [Effect.view?_delivered wellFormed.filed] at seen
    exact noLink target (view?_eq_link_iff.mp (eq_link_of_deposited seen))
  · exact mt ((Effect.shown_apply wellFormed sole passes _).2 _).mp passesBy

set_option maxRecDepth 8000 in
/-- The second version is made over the archive of an earlier run, and then once more. -/
theorem create_again_crowded :
    ∃ path last again,
      create (pathOf []) (.ofString "/sur") "2" ⟨crowded, []⟩ = .ok path last ∧
      create (pathOf []) (.ofString "/sur") "2" ⟨last.disk, []⟩ = .ok path again ∧
      Alike again.disk last.disk := by
  have left : leavesArchive (create (pathOf []) (.ofString "/sur") "2" ⟨crowded, []⟩) =
      some true := by
    simp only [create, assemble, addDescriptor_eq]
    generalize Utf8.ofString (Descriptor.forExecutable "2").render = bytes
    cases bytes <;> cbv
  rcases exists_of_leavesArchive_true left with ⟨path, last, made⟩
  have stands : crowded.node? (archiveLocation [] "2") = some (.file 2) := by
    decide
  have found : crowded.locate (.ofString "/sur") = .ok (.live [Utf8.ofString "sur"]) := by
    decide
  rcases create_again wellFormed_crowded rfl (by decide) (by decide)
    (by rw [found]; decide) (by simp [stands]) (sole_of_below (by decide)) made [] with
    ⟨again, ran, alike⟩
  exact ⟨path, last, again, made, ran, alike⟩

end BundlePacker.Bundle
