import BundlePacker.FileSystem.Difference

/-!
# File systems that look alike

The identities of files are an inner matter of a file system: two of them count as one state when
the same can be seen at every location, the same names mean one file, and the working directory is
the same.  Between such states no difference is found.
-/

namespace BundlePacker.FileSystem

/-- Whether two locations are names of one file. -/
def SameFile (system : FileSystem) (first second : Location) : Prop :=
  ∃ id, system.node? first = some (.file id) ∧ system.node? second = some (.file id)

/-- Whether two file systems can not be told apart by what stands in them. -/
structure Alike (first second : FileSystem) : Prop where
  views : ∀ location, first.view? location = second.view? location
  names : ∀ one other, first.SameFile one other ↔ second.SameFile one other
  places : first.workingDirectory = second.workingDirectory

namespace Alike

theorem refl (system : FileSystem) : Alike system system :=
  ⟨fun _ => rfl, fun _ _ => Iff.rfl, rfl⟩

theorem symm {first second : FileSystem} (alike : Alike first second) : Alike second first :=
  ⟨fun location => (alike.views location).symm, fun one other => (alike.names one other).symm,
    alike.places.symm⟩

theorem trans {first second third : FileSystem} (alike : Alike first second)
    (later : Alike second third) : Alike first third :=
  ⟨fun location => (alike.views location).trans (later.views location),
    fun one other => (alike.names one other).trans (later.names one other),
    alike.places.trans later.places⟩

theorem difference_eq_nil {first second : FileSystem} (alike : Alike first second)
    (top : Location) : first.difference second top = ⟨[], []⟩ :=
  difference_eq_nil_iff.mpr fun location _ _ => alike.views location

end Alike

end BundlePacker.FileSystem
