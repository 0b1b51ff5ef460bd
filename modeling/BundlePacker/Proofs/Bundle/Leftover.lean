import Mathlib
import BundlePacker.Proofs.Bundle.Outcome

/-!
# What is left of a staging directory

A staging directory is taken away at the end of its run, however the run ends, and a leftover of an
earlier run with it.  But a run looks at the executable first, and where that is no regular file it
ends before it has come to the staging directory at all.

The main statement says that nothing stands at the staging path at the end of a run exactly where
nothing stood there before or the executable is a regular file.  So a leftover stays when the
executable is missing.
-/

namespace BundlePacker.Bundle

open FileSystem
open StagingDirectory

variable {session : Session} {disk state : FileSystem} {base archive executable : Path}
  {above : Location} {version : String}

/-- Once a staging directory is taken away nothing stands at its path. -/
theorem Retains.absent
    (retains : Retains disk (stagingLocation above version) version archive state)
    (grounded : Grounded disk base above (Utf8.ofString (stagingName version))) :
    (state.cut (stagingLocation above version)).Absent (stagingPath base version) := by
  have ground := (retains.grounded grounded).cut
  have gone : (state.cut (stagingLocation above version)).node?
      (above ++ [Utf8.ofString (stagingName version)]) = none := by
    rw [node?_cut _ _ _ (stagingLocation_ne_nil above version)]
    exact if_pos List.prefix_rfl
  exact (ground.arrives_here ground.solid (extends_stagingPath grounded)).absent gone

/--
Nothing stands at the staging path at the end of a run exactly where nothing stood there before or
the executable is a regular file.  The base directory can be given by any path to it that does not
pass through the staging directory.
-/
theorem create_absent_iff (wellFormed : session.disk.WellFormed)
    (leads : session.disk.locate base = .ok (.live above))
    (stands : session.disk.node? above = some .directory)
    (passesBy : ¬ session.disk.PassesThrough .target base (stagingLocation above version))
    (noSlash : '/' ∉ version.toList)
    (leftover : ∀ place, session.disk.locateEntry (stagingPath base version) = .ok place →
      session.disk.nodeAt? place = some .directory) (executable : Path) :
    (stateAfter (create base executable version) session).disk.Absent
        (stagingPath base version) ↔
      session.disk.Absent (stagingPath base version) ∨ MeansFile session.disk executable := by
  have grounded : Grounded session.disk base above (Utf8.ofString (stagingName version)) :=
    ⟨⟨wellFormed, stands, isSegment_stagingName noSlash⟩, leads, passesBy⟩
  have arrives := grounded.arrives_here grounded.solid (extends_stagingPath grounded)
  rcases create_retains grounded noSlash executable with
    ⟨unchanged, cause⟩ | ⟨begins, state, retains, last⟩
  · rw [unchanged]
    constructor
    · exact .inl
    · rintro (absent | meansFile)
      · exact absent
      · rcases cause with missing | refuses | ⟨node, found, noDirectory⟩
        · exact absurd meansFile missing
        · exact refuses.absent
        · -- What stands at the staging path is a directory, if the system takes the path at all.
          rcases arrives.cases with reaches | ⟨-, refuses⟩
          · have directory : session.disk.node? (stagingLocation above version) =
                some .directory :=
              leftover _ (reaches.locateEntry_eq found)
            rw [found] at directory
            exact absurd (Option.some.inj directory) noDirectory
          · exact refuses.absent
  · rw [last]
    exact ⟨fun _ => .inr begins.meansFile, fun _ => retains.absent grounded⟩

/-! ## A leftover that stays -/

/-- A file system with an executable and the staging directory of a run that was cut short. -/
def abandoned : FileSystem :=
  stateAfter
    (do
      writeFile (.ofString "/sur") (.plain [0x78])
      makeDirectory (.ofString "/sur-1.artifactbundle_bundle")
      writeFile (.ofString "/sur-1.artifactbundle_bundle/part") (.plain [0x78]))
    FileSystem.empty

theorem wellFormed_abandoned : FileSystem.WellFormed abandoned := by
  apply Keeps.bind (keeps_writeFile _ _) _ _ wellFormed_empty
  intro _
  exact Keeps.bind (keeps_makeDirectory _) fun _ => keeps_writeFile _ _

theorem locateEntry_abandoned :
    abandoned.locateEntry (stagingPath (pathOf []) "1") = .ok (.live (stagingLocation [] "1")) := by
  cbv

/-- With the executable the leftover is taken away, and without it stays. -/
theorem create_absent_iff_abandoned :
    (stateAfter (create (pathOf []) (.ofString "/sur") "1") ⟨abandoned, []⟩).disk.Absent
        (stagingPath (pathOf []) "1") ∧
      ¬ (stateAfter (create (pathOf []) (.ofString "/other") "1") ⟨abandoned, []⟩).disk.Absent
        (stagingPath (pathOf []) "1") := by
  have directory : abandoned.node? (stagingLocation [] "1") = some .directory := by
    decide
  have leftover : ∀ place,
      (Session.mk abandoned []).disk.locateEntry (stagingPath (pathOf []) "1") = .ok place →
      (Session.mk abandoned []).disk.nodeAt? place = some .directory := by
    intro place found
    have same := locateEntry_abandoned.symm.trans found
    cases same
    exact directory
  have equivalent := create_absent_iff wellFormed_abandoned rfl rfl (by decide) (by decide)
    leftover
  constructor
  · exact (equivalent _).mpr (.inr ⟨.live [Utf8.ofString "sur"], 0, by cbv, by decide⟩)
  · intro absent
    rcases (equivalent _).mp absent with before | ⟨place, id, found, -⟩
    · exact before _ locateEntry_abandoned
    · have missing : abandoned.locate (.ofString "/other") = .error (.refused .notFound) := by
        cbv
      have impossible := missing.symm.trans found
      cases impossible

/-- A run without its executable leaves the staging directory of an earlier run where it was. -/
theorem create_keeps_leftover :
    abandoned.WellFormed ∧ '/' ∉ "1".toList ∧
      (∀ place, abandoned.locateEntry (stagingPath (pathOf []) "1") = .ok place →
        abandoned.nodeAt? place = some .directory) ∧
      ∃ fault last,
        create (pathOf []) (.ofString "/other") "1" ⟨abandoned, []⟩ = .error fault last ∧
        ¬ last.disk.Absent (stagingPath (pathOf []) "1") := by
  refine ⟨wellFormed_abandoned, by decide, ?_, ?_⟩
  · intro place found
    have same := locateEntry_abandoned.symm.trans found
    cases same
    decide
  · have missing : abandoned.locate (.ofString "/other") = .error (.refused .notFound) := by
      cbv
    have refused : checkExecutable (.ofString "/other") ⟨abandoned, []⟩ =
        .error (.executableNotFound (.ofString "/other") (.refused .notFound))
          ⟨abandoned, []⟩ := by
      rw [checkExecutable, missing]
    exact ⟨_, _, run_bind_of_error refused, fun absent => absent _ locateEntry_abandoned⟩

end BundlePacker.Bundle
