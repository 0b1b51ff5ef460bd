import Mathlib
import BundlePacker.Proofs.Bundle.Create

/-!
# What a failure leaves behind

A run can fail at any step.  Whatever had been made by then is taken away again, and the archive of
an earlier run is not touched before everything for the new one is laid out.
-/

namespace BundlePacker.Bundle

open FileSystem
open StagingDirectory

variable {session : Session} {base : Location} {version : String}

/--
A run that fails leaves everything as it was, except that an older staging directory may be gone:
no archive has been begun and none has been lost.
-/
theorem create_error_alike {executable : Path} {fault : Error} {last : Session}
    (wellFormed : session.disk.WellFormed)
    (stands : session.disk.node? base = some .directory) (noSlash : '/' ∉ version.toList)
    (noLinkInto : ∀ target,
      session.disk.node? (archiveLocation base version) = some (.link target) →
      ¬ LeadsInto session.disk (stagingLocation base version) version
        (archivePath (pathOf base) version))
    (failed : create (pathOf base) executable version session = .error fault last) :
    Alike last.disk session.disk ∨
      Alike last.disk (session.disk.cut (stagingLocation base version)) := by
  have site := site_stagingLocation wellFormed stands noSlash
  have outside : Addressable (stagingLocation base version) → ∀ file,
      ¬ (prepared session.disk (stagingLocation base version) file version).WritesInto
        (.live (stagingLocation base version)) (archivePath (pathOf base) version) := by
    intro addressable file
    have isName : IsName (Utf8.ofString (stagingName version)) :=
      addressable.names _ (by simp [stagingLocation])
    have staged := staged_prepared site isName file version
    apply not_writesInto_prepared site isName file
    intro spot inner ends there _
    by_cases link : ∃ target,
        session.disk.node? (archiveLocation base version) = some (.link target)
    · rcases link with ⟨target, found⟩
      intro inside
      exact noLinkInto target found ⟨file, spot, inner, ends, there, inside⟩
    · exact apart_of_no_link wellFormed stands noSlash (fun target found => link ⟨target, found⟩)
        staged ends there
  rcases create_cases wellFormed stands noSlash outside executable with
    ⟨_, _, ran, same | alike⟩ | ⟨_, ran, -⟩
  · rw [ran] at failed
    cases failed
    left
    rw [same]
    exact .refl _
  · rw [ran] at failed
    cases failed
    exact .inr alike
  · rw [ran] at failed
    cases failed

set_option maxRecDepth 8000 in
/-- A directory in the place of the archive makes a run fail. -/
theorem create_error_alike_sample :
    ∃ fault last, create (pathOf []) (.ofString "/sur") "1" ⟨sample, []⟩ = .error fault last ∧
      (Alike last.disk sample ∨ Alike last.disk (sample.cut (stagingLocation [] "1"))) := by
  have failed : leavesArchive (create (pathOf []) (.ofString "/sur") "1" ⟨sample, []⟩) = none := by
    -- The text of the descriptor plays no part.
    simp only [create, assemble, addDescriptor_eq]
    generalize Utf8.ofString (Descriptor.forExecutable "1").render = bytes
    cases bytes <;> cbv
  rcases exists_of_leavesArchive_none failed with ⟨fault, last, ran⟩
  have directory : sample.node? (archiveLocation [] "1") = some .directory := by
    decide
  refine ⟨fault, last, ran, create_error_alike wellFormed_sample rfl (by decide) ?_ ran⟩
  intro target link
  change sample.node? (archiveLocation [] "1") = some (.link target) at link
  rw [directory] at link
  cases link

end BundlePacker.Bundle
