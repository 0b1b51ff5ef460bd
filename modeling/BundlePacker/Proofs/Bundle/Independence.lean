import Mathlib
import BundlePacker.Proofs.Bundle.Input
import BundlePacker.Proofs.Bundle.Verdict

/-!
# Runs for different versions

The locations of two versions are never the same and never lie in one another, whatever the versions
are.  So a run for one of them comes to the same before and after a run for the other, as long as
nothing leads from one to the other: no link at the locations, no second name of an archive, and no
executable that is reached through them.

The main statement says that such runs can change places: both answer the same in either order, and
the file systems look alike in the end, whether the runs succeed or fail.
-/

namespace BundlePacker.Bundle

open FileSystem

variable {session : Session} {disk : FileSystem} {base : Location} {executable another : Path}
  {version other : String}

/-- Whether a run for a version has nothing to do with runs for another one. -/
structure Independent (disk : FileSystem) (base : Location) (executable : Path)
    (version other : String) : Prop where
  noSlash : '/' ∉ version.toList
  noLink : ∀ location ∈ locations base version, ∀ target,
    disk.node? location ≠ some (.link target)
  sole : disk.Sole (archiveLocation base version)
  passesBy : ∀ location ∈ locations base version ++ locations base other,
    ¬ disk.PassesThrough .target executable location

/-- An independent run ends as its verdict says. -/
theorem Independent.create_verdict
    (independent : Independent session.disk base executable version other)
    (wellFormed : session.disk.WellFormed) (stands : session.disk.node? base = some .directory) :
    answer (create (pathOf base) executable version) session =
        (verdict session.disk base executable version).1 ∧
      Alike (stateAfter (create (pathOf base) executable version) session).disk
        ((verdict session.disk base executable version).2.apply base version session.disk) :=
  Bundle.create_verdict session executable wellFormed stands independent.noSlash
    (independent.noLink _ (archiveLocation_mem ..))
    (independent.passesBy _ (List.mem_append_left _ (stagingLocation_mem ..)))

/-- What comes about for another version does not change the verdict on an independent run. -/
theorem Independent.verdict_apply (independent : Independent disk base executable version other)
    (differs : version ≠ other) (wellFormed : disk.WellFormed)
    (sole : disk.Sole (archiveLocation base other)) (effect : Effect) :
    verdict (effect.apply base other disk) base executable version =
      verdict disk base executable version := by
  have outside : ∀ further ∈ locations base version, ∀ location ∈ locations base other,
      ¬ location <+: further := fun further member location memberOther =>
    not_prefix_of_differs differs.symm memberOther member
  have views : ∀ further ∈ locations base version,
      (effect.apply base other disk).view? further = disk.view? further := fun further member =>
    Effect.view?_apply (outside further member) wellFormed.filed sole effect
  have shows := (Effect.shown_apply wellFormed sole (fun location member =>
    independent.passesBy location (List.mem_append_right _ member)) effect).1
  exact verdict_congr shows
    (obstacle_congr (views _ (stagingLocation_mem ..)).symm
      (independent.noLink _ (stagingLocation_mem ..))).symm
    (views _ (archiveLocation_mem ..))

/-- A run that comes after an independent one answers as it would without it, and has its effect. -/
theorem create_after_independent (differs : version ≠ other)
    (wellFormed : session.disk.WellFormed) (stands : session.disk.node? base = some .directory)
    (independent : Independent session.disk base executable version other)
    (independentOther : Independent session.disk base another other version) :
    answer (create (pathOf base) executable version)
          (stateAfter (create (pathOf base) another other) session) =
        answer (create (pathOf base) executable version) session ∧
      Alike (stateAfter (create (pathOf base) executable version)
          (stateAfter (create (pathOf base) another other) session)).disk
        ((verdict session.disk base executable version).2.apply base version
          ((verdict session.disk base another other).2.apply base other session.disk)) := by
  have kept : (stateAfter (create (pathOf base) another other) session).disk.WellFormed :=
    keeps_create _ _ _ session wellFormed
  have own := independent.create_verdict wellFormed stands
  have alike := (independentOther.create_verdict wellFormed stands).2
  generalize (verdict session.disk base another other).2 = earlier at alike ⊢
  have outside : ∀ location ∈ locations base other, ¬ location <+: archiveLocation base version :=
    fun location member => not_prefix_of_differs differs.symm member (archiveLocation_mem ..)
  have passes := (Effect.shown_apply wellFormed independentOther.sole (fun location member =>
    independent.passesBy location (List.mem_append_right _ member)) earlier).2
  have later := create_verdict_of_alike _ executable kept alike (Effect.filed wellFormed.filed _)
    ((Effect.node?_apply (fun _ => not_prefix_base) _).trans stands) independent.noSlash
    (fun target found => independent.noLink _ (archiveLocation_mem ..) target
      ((Effect.node?_apply outside _).symm.trans found))
    (mt (passes _).mp (independent.passesBy _ (List.mem_append_left _ (stagingLocation_mem ..))))
  rw [independent.verdict_apply differs wellFormed independentOther.sole] at later
  exact ⟨later.1.trans own.1.symm, later.2⟩

/--
Independent runs for two versions can change places: each answers the same whether it comes first or
second, and the file systems look alike in the end.
-/
theorem create_comm (differs : version ≠ other) (wellFormed : session.disk.WellFormed)
    (stands : session.disk.node? base = some .directory)
    (independent : Independent session.disk base executable version other)
    (independentOther : Independent session.disk base another other version) :
    answer (create (pathOf base) executable version) session =
        answer (create (pathOf base) executable version)
          (stateAfter (create (pathOf base) another other) session) ∧
      answer (create (pathOf base) another other)
          (stateAfter (create (pathOf base) executable version) session) =
        answer (create (pathOf base) another other) session ∧
      Alike
        (stateAfter (create (pathOf base) another other)
          (stateAfter (create (pathOf base) executable version) session)).disk
        (stateAfter (create (pathOf base) executable version)
          (stateAfter (create (pathOf base) another other) session)).disk := by
  rcases create_after_independent differs wellFormed stands independent independentOther with
    ⟨answers, alike⟩
  rcases create_after_independent differs.symm wellFormed stands independentOther independent with
    ⟨answersOther, alikeOther⟩
  have effects := Effect.apply_comm wellFormed.filed differs independent.sole
    (verdict session.disk base executable version).2 (verdict session.disk base another other).2
  exact ⟨answers.symm, answersOther, alikeOther.trans (effects.symm.trans alike.symm)⟩

/-- One of two versions has a leftover of an earlier run, and the other one an archive. -/
theorem create_comm_crowded :
    answer (create (pathOf []) (.ofString "/sur") "1") ⟨crowded, []⟩ =
        answer (create (pathOf []) (.ofString "/sur") "1")
          (stateAfter (create (pathOf []) (.ofString "/sur") "2") ⟨crowded, []⟩) ∧
      answer (create (pathOf []) (.ofString "/sur") "2")
          (stateAfter (create (pathOf []) (.ofString "/sur") "1") ⟨crowded, []⟩) =
        answer (create (pathOf []) (.ofString "/sur") "2") ⟨crowded, []⟩ ∧
      Alike
        (stateAfter (create (pathOf []) (.ofString "/sur") "2")
          (stateAfter (create (pathOf []) (.ofString "/sur") "1") ⟨crowded, []⟩)).disk
        (stateAfter (create (pathOf []) (.ofString "/sur") "1")
          (stateAfter (create (pathOf []) (.ofString "/sur") "2") ⟨crowded, []⟩)).disk := by
  have nodes : ∀ location ∈ locations [] "1" ++ locations [] "2",
      crowded.node? location ∈ [none, some .directory, some (.file 2)] := by
    decide
  have first : Independent crowded [] (.ofString "/sur") "1" "2" := by
    refine ⟨by decide, ?_, sole_of_below (by decide), by decide⟩
    intro location member target found
    simpa [found] using nodes location (List.mem_append_left _ member)
  have second : Independent crowded [] (.ofString "/sur") "2" "1" := by
    refine ⟨by decide, ?_, sole_of_below (by decide), by decide⟩
    intro location member target found
    simpa [found] using nodes location (List.mem_append_right _ member)
  have differs : "1" ≠ "2" := by decide
  exact create_comm differs wellFormed_crowded rfl first second

end BundlePacker.Bundle
