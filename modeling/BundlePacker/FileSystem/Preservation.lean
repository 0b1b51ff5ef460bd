import BundlePacker.Invariant
import BundlePacker.FileSystem.Trees
import BundlePacker.FileSystem.WellFormed

/-!
# What calls keep

Every call of this library keeps a file system well-formed.  For a single call this follows from
where its resolutions end.  Work that is composed of calls keeps any property that these calls keep,
where the calls are named by what they do to a path: make it, remove it or write to it.
-/

namespace BundlePacker.FileSystem

namespace Call

variable {α : Type} {property : FileSystem → Prop}

theorem keeps_observe (look : FileSystem → Except Fault α) : Keeps property (observe look) := by
  intro system holds
  simp only [stateAfter, observe]
  cases look system <;> exact holds

theorem keeps_alter {change : FileSystem → Except Fault FileSystem}
    (changes : ∀ system next, property system → change system = .ok next → property next) :
    Keeps property (alter change) := by
  intro system holds
  simp only [stateAfter, alter]
  cases result : change system with
  | ok next => exact changes system next holds result
  | error fault => exact holds

end Call

/-! ## Single calls -/

open Call

/-- A directory is made by being put at a vacant name, and nothing else is done. -/
theorem keeps_makeDirectory_of_put {property : FileSystem → Prop} {path : Path}
    (puts : ∀ system directory name, property system →
      system.resolve .entry path = .ok (.vacant directory name) →
      property (system.put (directory ++ [name]) .directory)) :
    Keeps property (makeDirectory path) := by
  refine keeps_alter fun system next holds made => ?_
  obtain ⟨spot, ends, made⟩ := exists_of_bind_eq_ok made
  split at made
  · cases made
  · cases made
    exact puts system _ _ holds ends

theorem keeps_makeDirectory (path : Path) : Keeps WellFormed (makeDirectory path) := by
  refine keeps_makeDirectory_of_put fun system directory name well_formed ends => ?_
  obtain ⟨stands, vacant, is_name⟩ := resolve_holds well_formed ends
  exact well_formed.put stands vacant is_name trivial

theorem vacancy_holds {system : FileSystem} (well_formed : system.WellFormed) {path : Path}
    {location : Location} (found : system.vacancy path = .ok location) :
    ∃ directory name, location = directory ++ [name] ∧
      system.node? directory = some .directory ∧ system.node? (directory ++ [name]) = none ∧
      IsName name := by
  obtain ⟨spot, ends, found⟩ := exists_of_bind_eq_ok found
  split at found
  · cases found
  · next directory name =>
    split at found
    · cases found
    · cases found
      exact ⟨directory, name, rfl, resolve_holds well_formed ends⟩

theorem keeps_makeLink (path target : Path) : Keeps WellFormed (makeLink path target) := by
  refine keeps_alter fun system next well_formed made => ?_
  split at made
  · cases made
  next clean =>
  split at made
  · cases made
  next nonempty =>
  split at made
  · cases made
  obtain ⟨location, found, made⟩ := exists_of_bind_eq_ok made
  cases made
  obtain ⟨directory, name, rfl, stands, vacant, is_name⟩ := vacancy_holds well_formed found
  exact well_formed.put stands vacant is_name ⟨nonempty, clean⟩

theorem keeps_makeSocket (path : Path) : Keeps WellFormed (makeSocket path) := by
  refine keeps_alter fun system next well_formed made => ?_
  split at made
  · next location found =>
    cases made
    obtain ⟨directory, name, rfl, stands, vacant, is_name⟩ := vacancy_holds well_formed found
    exact well_formed.put stands vacant is_name trivial
  · cases made
  · cases made

theorem keeps_makeName (path existing : Path) : Keeps WellFormed (makeName path existing) := by
  refine keeps_alter fun system next well_formed made => ?_
  obtain ⟨source, _, made⟩ := exists_of_bind_eq_ok made
  obtain ⟨location, found, made⟩ := exists_of_bind_eq_ok made
  split at made
  · cases made
  · cases made
  · next node _ source_stands =>
    cases made
    obtain ⟨directory, name, rfl, stands, vacant, is_name⟩ := vacancy_holds well_formed found
    exact well_formed.put stands vacant is_name (well_formed.fits_at source_stands)

theorem keeps_changeDirectory (path : Path) : Keeps WellFormed (changeDirectory path) := by
  refine keeps_alter fun system next well_formed moved => ?_
  obtain ⟨place, found, moved⟩ := exists_of_bind_eq_ok moved
  split at moved
  · next stands =>
    cases moved
    obtain ⟨spot, ends, found⟩ := exists_of_bind_eq_ok found
    split at found
    · cases found
      refine well_formed.moveTo ?_
      cases place with
      | live location => exact stands
      | removed between above => exact resolve_holds well_formed ends
    · cases found
  · cases moved

/-- What stands at a location that is not the root's can be taken away. -/
theorem WellFormed.cut_of_occupied {system : FileSystem} (well_formed : system.WellFormed)
    {purpose : Purpose} {path : Path} {location : Location}
    (ends : system.resolve purpose path = .ok (.occupied (.live location)))
    (below_root : location ≠ []) : (system.cut location).WellFormed := by
  obtain ⟨node, stands, _⟩ := resolve_holds well_formed ends
  exact well_formed.cut (by simp [stands]) below_root

theorem keeps_removeFile (path : Path) : Keeps WellFormed (removeFile path) := by
  refine keeps_alter fun system next well_formed removed => ?_
  obtain ⟨spot, ends, removed⟩ := exists_of_bind_eq_ok removed
  split at removed
  · cases removed
  · cases removed
  next location =>
  split at removed
  · cases removed
  next no_directory =>
  split at removed
  · cases removed
  cases removed
  refine well_formed.cut_of_occupied ends ?_
  rintro rfl
  simp at no_directory

theorem keeps_removeDirectory (path : Path) : Keeps WellFormed (removeDirectory path) := by
  refine keeps_alter fun system next well_formed removed => ?_
  obtain ⟨spot, ends, removed⟩ := exists_of_bind_eq_ok removed
  split at removed
  · cases removed
  next place =>
  split at removed
  · cases removed
  next name last =>
  split at removed
  · cases removed
  next ne_self =>
  split at removed
  · cases removed
  next ne_parent =>
  split at removed
  · cases removed
  next location =>
  split at removed
  · cases removed
  split at removed
  · cases removed
  cases removed
  exact well_formed.cut_of_occupied ends (resolve_entry_ne_root last ne_self ne_parent ends)

theorem keeps_emptyDirectory (path : Path) : Keeps WellFormed (emptyDirectory path) := by
  refine keeps_alter fun system next well_formed emptied => ?_
  obtain ⟨place, _, emptied⟩ := exists_of_bind_eq_ok emptied
  split at emptied
  · cases emptied
    exact well_formed
  next location =>
  split at emptied
  · next stands =>
    cases emptied
    exact well_formed.clear stands
  · cases emptied

theorem keeps_openToWrite (path : Path) : Keeps WellFormed (openToWrite path) := by
  intro system well_formed
  simp only [stateAfter, openToWrite]
  cases ends : system.resolve .creation path with
  | error fault => exact well_formed
  | ok spot =>
    cases spot with
    | vacant directory name =>
      obtain ⟨stands, vacant, is_name⟩ := resolve_holds well_formed ends
      exact (well_formed.addFile _).put stands vacant is_name (by simp [Node.Fits, addFile])
    | occupied place =>
      simp only
      generalize system.nodeAt? place = found
      cases found with
      | none => exact well_formed
      | some node =>
        cases node with
        | directory | link _ => exact well_formed
        | file id =>
          by_cases writable : (system.file? id).all File.isWritable
          · simpa [writable] using well_formed.setContent _ _
          · simpa [writable] using well_formed
        | special special => cases special <;> exact well_formed

theorem keeps_write (handle : Handle) (content : Content) :
    Keeps WellFormed (write handle content) := by
  have alters : ∀ id, Keeps WellFormed (Call.alter fun system =>
      .ok (system.setContent id content)) := by
    intro id
    refine keeps_alter fun system next well_formed written => ?_
    cases written
    exact well_formed.setContent _ _
  simp only [write]
  split
  · exact Keeps.pure _
  · exact Keeps.pure _
  · exact alters _

theorem keeps_grant (handle : Handle) (mode : Mode) : Keeps WellFormed (grant handle mode) := by
  cases handle with
  | file id =>
    simp only [grant]
    refine keeps_alter fun system next well_formed granted => ?_
    cases granted
    exact well_formed.setMode _ _
  | sink => exact Keeps.pure _

theorem keeps_changeMode (path : Path) (mode : Mode) : Keeps WellFormed (changeMode path mode) := by
  refine keeps_alter fun system next well_formed changed => ?_
  obtain ⟨place, _, changed⟩ := exists_of_bind_eq_ok changed
  split at changed
  · cases changed
    exact well_formed.setMode _ _
  · cases changed
    exact well_formed

/-! ## Trees and copies -/

/-- Whether a property is kept by the calls that make a directory and the ones above it. -/
def KeptByMaking (property : FileSystem → Prop) (path : Path) : Prop :=
  ∀ upper ∈ path.ancestors, upper.bytes ≠ [] → Keeps property (makeDirectory upper)

/-- Whether a property is kept by the calls that take away what stands at a path. -/
structure KeptByRemoving (property : FileSystem → Prop) (path : Path) : Prop where
  file : Keeps property (removeFile path)
  directory : Keeps property (removeDirectory path)
  content : Keeps property (emptyDirectory path)

/-- Whether a property is kept by opening a path for writing and by writing to what it opens. -/
structure KeptByWriting (property : FileSystem → Prop) (path : Path) : Prop where
  opens : Keeps property (openToWrite path)
  writes : ∀ system handle next, property system → openToWrite path system = .ok handle next →
    ∀ content, Keeps property (write handle content)
  grants : ∀ system handle next, property system → openToWrite path system = .ok handle next →
    ∀ mode, Keeps property (grant handle mode)

variable {property : FileSystem → Prop} {path : Path}

theorem keeps_admitDirectory (making : Keeps property (makeDirectory path)) :
    Keeps property (admitDirectory path) := by
  intro system holds
  have kept := making system holds
  simp only [stateAfter, admitDirectory] at kept ⊢
  cases made : makeDirectory path system with
  | ok _ next =>
    rw [made] at kept
    exact kept
  | error fault next =>
    rw [made] at kept
    by_cases there : next.isDirectory path <;> simpa [there] using kept

theorem makeDirectoryIn_cons (path : Path) (above : List Path) (system : FileSystem) :
    makeDirectoryIn (path :: above) system = .ok () system ∨
      path.bytes ≠ [] ∧
        (makeDirectoryIn (path :: above) system =
            (makeDirectoryIn above *> admitDirectory path) system ∨
          makeDirectoryIn (path :: above) system = admitDirectory path system) := by
  simp only [makeDirectoryIn]
  split
  · exact .inl rfl
  next nonempty =>
  right
  refine ⟨nonempty, ?_⟩
  split
  · exact .inl rfl
  · exact .inr rfl

theorem keeps_makeDirectoryIn {paths : List Path}
    (making : ∀ path ∈ paths, path.bytes ≠ [] → Keeps property (makeDirectory path)) :
    Keeps property (makeDirectoryIn paths) := by
  induction paths with
  | nil => exact Keeps.pure _
  | cons path above hypothesis =>
    have later := hypothesis fun upper member => making upper (List.mem_cons_of_mem _ member)
    intro system holds
    rcases makeDirectoryIn_cons path above system with same | ⟨nonempty, same⟩
    · simp only [stateAfter, same]
      exact holds
    · have first := keeps_admitDirectory (making path (List.mem_cons_self ..) nonempty)
      rcases same with same | same <;> simp only [stateAfter, same]
      · exact Keeps.seqRight later first system holds
      · exact first system holds

theorem KeptByMaking.makeDirectories (making : KeptByMaking property path) :
    Keeps property (makeDirectories path) :=
  keeps_makeDirectoryIn making

theorem KeptByMaking.ensureDirectory (making : KeptByMaking property path) :
    Keeps property (ensureDirectory path) := by
  intro system holds
  by_cases there : system.pathExists path
  · simp only [stateAfter, FileSystem.ensureDirectory, there, if_true]
    exact holds
  · simp only [stateAfter, FileSystem.ensureDirectory, there]
    exact making.makeDirectories system holds

theorem KeptByRemoving.dismissDirectory (removing : KeptByRemoving property path) :
    Keeps property (dismissDirectory path) := by
  intro system holds
  have kept := removing.directory system holds
  simp only [stateAfter, FileSystem.dismissDirectory] at kept ⊢
  cases removed : removeDirectory path system with
  | ok _ next => simpa [removed] using kept
  | error fault next =>
    rw [removed] at kept
    by_cases missing : fault = .refused .notFound <;> simpa [missing] using kept

theorem KeptByRemoving.removeTree (removing : KeptByRemoving property path) :
    Keeps property (removeTree path) := by
  refine Keeps.bind (keeps_observe _) fun place => Keeps.bind Keeps.get fun system => ?_
  split
  · exact removing.file
  · exact Keeps.bind removing.content fun _ => removing.dismissDirectory

theorem KeptByWriting.writeFile (writing : KeptByWriting property path) (content : Content) :
    Keeps property (writeFile path content) :=
  Keeps.bind_of_ok writing.opens fun system handle next holds opened =>
    writing.writes system handle next holds opened content

theorem KeptByWriting.copyBytes (writing : KeptByWriting property path) (source : Path) :
    Keeps property (copyBytes source path) := by
  refine Keeps.bind (keeps_observe _) fun found => ?_
  cases found with
  | irregular => exact Keeps.throw _
  | file id =>
    refine Keeps.bind Keeps.get fun before => ?_
    refine Keeps.bind_of_ok writing.opens fun system handle next holds opened => ?_
    refine Keeps.bind Keeps.get fun after => ?_
    split
    · next file copy _ _ =>
      refine Keeps.bind (writing.grants system handle next holds opened file.mode) fun _ => ?_
      exact Keeps.bind (writing.writes system handle next holds opened copy.content) fun _ =>
        Keeps.pure _
    · exact Keeps.pure _

theorem keeps_prepareFor
    (making : ∀ directory, path.parent? = some directory → KeptByMaking property directory) :
    Keeps property (prepareFor path) := by
  simp only [prepareFor]
  split
  · exact Keeps.pure _
  · next directory parent => exact (making directory parent).ensureDirectory

theorem KeptByWriting.copyFile (writing : KeptByWriting property path)
    (making : ∀ directory, path.parent? = some directory → KeptByMaking property directory)
    (source : Path) : Keeps property (copyFile source path) :=
  Keeps.bind (keeps_prepareFor making) fun _ => writing.copyBytes source

/-! ## Well-formed file systems -/

theorem WellFormed.keptByMaking (path : Path) : KeptByMaking WellFormed path :=
  fun upper _ _ => keeps_makeDirectory upper

theorem WellFormed.keptByRemoving (path : Path) : KeptByRemoving WellFormed path :=
  ⟨keeps_removeFile path, keeps_removeDirectory path, keeps_emptyDirectory path⟩

theorem WellFormed.keptByWriting (path : Path) : KeptByWriting WellFormed path :=
  ⟨keeps_openToWrite path, fun _ handle _ _ _ content => keeps_write handle content,
    fun _ handle _ _ _ mode => keeps_grant handle mode⟩

theorem keeps_writeFile (path : Path) (content : Content) :
    Keeps WellFormed (writeFile path content) :=
  (WellFormed.keptByWriting path).writeFile content

end BundlePacker.FileSystem
