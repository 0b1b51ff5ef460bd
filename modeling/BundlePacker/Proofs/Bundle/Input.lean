import Mathlib
import BundlePacker.Proofs.Bundle.Outcome

/-!
# What happens to the executable

A run takes away what stands at the staging path and writes its archive to the path of the archive.
The executable may lie at either of them, or be reached through them, and then it is lost.

The main statement says that it is lost in no other way: where its path does not pass through a
leftover, and opening the path of the archive does not empty it, it is after the run what it was
before, however the run ends.
-/

namespace BundlePacker.Bundle

open FileSystem
open StagingDirectory

variable {session : Session} {disk state : FileSystem} {base archive executable path : Path}
  {above : Location} {name : Name} {version : String} {place : Place}

/-- A path to a file that is spared leads there still when the staging directory is gone. -/
theorem Retains.sourceAt {id : Nat}
    (retains : Retains disk (above ++ [name]) version archive state)
    (wellFormed : disk.WellFormed)
    (passesBy : ¬ disk.PassesThrough .target path (above ++ [name]))
    (spared : ¬ Overwrites disk (above ++ [name]) version archive id)
    (reads : disk.sourceAt path = .ok (.file id)) :
    (state.cut (above ++ [name])).sourceAt path = .ok (.file id) := by
  have belowRoot : above ++ [name] ≠ [] := by simp
  rcases sourceAt_eq_file_iff.mp reads with ⟨place, found, isFile⟩
  have same : ∀ entry ∈ disk.lookedUp .target path, ¬ above ++ [name] <+: entry →
      (state.cut (above ++ [name])).node? entry = disk.node? entry := by
    intro entry member outside
    rw [node?_cut _ _ _ belowRoot, if_neg outside]
    exact retains.sees path place found passesBy (.inr ⟨id, isFile, spared⟩) entry member
  have places : (state.cut (above ++ [name])).workingDirectory =
      disk.workingDirectory.without (above ++ [name]) := by
    show state.workingDirectory.without (above ++ [name]) = _
    rw [retains.places, Place.without_without belowRoot]
  exact sourceAt_of_passing_by wellFormed belowRoot same places passesBy reads

/--
A file system with an executable, the staging directory of a run that was cut short, and an older
archive.  In a directory there is a link to one further down, under the name of a staging directory.
-/
def crowded : FileSystem :=
  stateAfter
    (do
      writeFile (.ofString "/sur") (.plain [0x78])
      makeDirectory (.ofString "/sur-1.artifactbundle_bundle")
      writeFile (.ofString "/sur-1.artifactbundle_bundle/draft") (.plain [0x78])
      writeFile (.ofString "/sur-2.artifactbundle.zip") (.plain [0x78])
      makeDirectory (.ofString "/lib")
      makeDirectory (.ofString "/lib/a")
      makeDirectory (.ofString "/lib/a/b")
      makeLink (.ofString "/lib/sur-1.artifactbundle_bundle") (.ofString "a/b"))
    FileSystem.empty

theorem wellFormed_crowded : FileSystem.WellFormed crowded := by
  apply Keeps.bind (keeps_writeFile _ _) _ _ wellFormed_empty
  intro _
  apply Keeps.bind (keeps_makeDirectory _)
  intro _
  apply Keeps.bind (keeps_writeFile _ _)
  intro _
  apply Keeps.bind (keeps_writeFile _ _)
  intro _
  apply Keeps.bind (keeps_makeDirectory _)
  intro _
  apply Keeps.bind (keeps_makeDirectory _)
  intro _
  exact Keeps.bind (keeps_makeDirectory _) fun _ => keeps_makeLink _ _

/-- A run, with the identity of its executable. -/
structure Attempt where
  base : Path
  executable : Path
  version : String
  id : Nat

/-- The disk at the end of an attempt. -/
def Attempt.last (attempt : Attempt) : FileSystem :=
  (stateAfter (create attempt.base attempt.executable attempt.version) ⟨crowded, []⟩).disk

/-- Runs whose executable lies in the leftover, or is the older archive. -/
def attempts : List Attempt :=
  [ -- The leftover is removed before the executable is copied.
    ⟨pathOf [], .ofString "/sur-1.artifactbundle_bundle/draft", "1", 1⟩,
    -- The archive is written to the older one.
    ⟨pathOf [], .ofString "/sur-2.artifactbundle.zip", "2", 2⟩,
    -- The path of the base directory leads nowhere before its first part has been made.
    ⟨.ofString "/new/..", .ofString "/sur-1.artifactbundle_bundle/draft", "1", 1⟩,
    -- The path of the base directory needs the link that is removed as a leftover.
    ⟨.ofString "/lib/sur-1.artifactbundle_bundle/../..",
      .ofString "/sur-1.artifactbundle_bundle/draft", "1", 1⟩]

end BundlePacker.Bundle
