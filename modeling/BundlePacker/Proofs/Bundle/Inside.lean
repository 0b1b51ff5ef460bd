import BundlePacker.Proofs.Bundle.Steps
import BundlePacker.Proofs.FileSystem.Install
import BundlePacker.Proofs.FileSystem.Vacancy

/-!
# The inside of a staging directory

A staging directory that has been made where nothing stood is found by its path for as long as it is
there, whatever has been put into it.  Three names in it can be taken: that of the directory for the
executable, that of the executable, and that of the descriptor.  The two files are new ones, so that
exchanging them does not touch any file from before.

The main statements are about the two ways of filling a staging directory.  Each of them lays its
file down, or it fails and both files stay as they were.
-/

namespace BundlePacker

open FileSystem

namespace FileSystem

/--
Whether a file is what a copy of the file that a path means would be.  A copy of an empty file has
its mode; where there are bytes to be written the mode is a lowered one, with the same bits for
reading, writing and executing.
-/
def Copies (disk : FileSystem) (source : Path) (copy : File) : Prop :=
  ∃ id original, disk.openToRead source = .ok (.file id) ∧ disk.file? id = some original ∧
    copy = written original.mode original.content

end FileSystem

namespace StagingDirectory

/-! ## What stands in a staging directory -/

/-- The names below a staging directory at which something can stand. -/
def innerNames : List (List Name) :=
  [[binName], [binName, executableName], [descriptorName]]

/-- The location of the directory for the executable. -/
def binLocation (top : Location) : Location :=
  top ++ [binName]

/-- The location of the executable. -/
def executableLocation (top : Location) : Location :=
  binLocation top ++ [executableName]

/-- The location of the descriptor. -/
def descriptorLocation (top : Location) : Location :=
  top ++ [descriptorName]

/-- The file as which a descriptor is written. -/
def fileOf (descriptor : Descriptor) : File :=
  ⟨freshMode, .plain (Utf8.ofString descriptor.render)⟩

/-- A staging directory in use, with the files that it holds and nothing else in it. -/
structure Guarded (disk : FileSystem) (top : Location) (copied described : Option File)
    (state : FileSystem) : Prop where
  wellFormed : state.WellFormed
  changed : ChangedWithin top disk state
  stands : state.node? top = some .directory
  bin : state.node? (binLocation top) = none ∨ state.node? (binLocation top) = some .directory
  executable : state.Bears disk.files.length (executableLocation top) copied
  descriptor : state.Bears disk.files.length (descriptorLocation top) described
  apart : ¬ state.SameFile (executableLocation top) (descriptorLocation top)
  fresh : ∀ file ∈ described, file.mode = freshMode
  nothingElse : ∀ names, names ≠ [] → names ∉ innerNames → state.node? (top ++ names) = none

variable {disk state : FileSystem} {path : Path} {above top : Location} {name : Name}
  {copied described : Option File}

theorem executableLocation_eq (top : Location) :
    executableLocation top = top ++ [binName, executableName] := by
  simp [executableLocation, binLocation]

theorem executableLocation_ne_descriptorLocation (top : Location) :
    executableLocation top ≠ descriptorLocation top := by
  intro same
  have lengths := congrArg List.length same
  simp [executableLocation, binLocation, descriptorLocation] at lengths

theorem binLocation_ne_descriptorLocation (top : Location) :
    binLocation top ≠ descriptorLocation top := by
  have names : binName ≠ descriptorName := by decide
  simp [binLocation, descriptorLocation, names]

theorem binLocation_ne_executableLocation (top : Location) :
    binLocation top ≠ executableLocation top := by
  simp [executableLocation]

/-- At every other name nothing that a staging directory is asked for is put. -/
theorem ne_of_not_mem_innerNames {names : List Name} (outside : names ∉ innerNames) :
    top ++ names ≠ binLocation top ∧ top ++ names ≠ executableLocation top ∧
      top ++ names ≠ descriptorLocation top := by
  rw [executableLocation_eq, binLocation, descriptorLocation]
  simpa [innerNames] using outside

/-- An empty staging directory. -/
theorem guarded_put (wellFormed : disk.WellFormed) (stands : disk.node? above = some .directory)
    (vacant : disk.node? (above ++ [name]) = none) (isName : IsName name) :
    Guarded disk (above ++ [name]) none none (disk.put (above ++ [name]) .directory) := by
  have below : ∀ names, names ≠ [] →
      (disk.put (above ++ [name]) .directory).node? (above ++ [name] ++ names) = none := by
    intro names proper
    rw [node?_put _ _ _ _ (by simp), if_neg (by simpa using proper)]
    exact wellFormed.node?_below (by simp [vacant]) (List.prefix_append ..) (by simpa using proper)
  have inExecutable := below [binName, executableName] (by simp)
  have inDescriptor := below [descriptorName] (by simp)
  rw [← executableLocation_eq] at inExecutable
  refine
    { wellFormed := wellFormed.put stands vacant isName trivial
      changed := .put (by simp) List.prefix_rfl
      stands := ?_
      bin := .inl (below [binName] (by simp))
      executable := inExecutable
      descriptor := inDescriptor
      apart := ?_
      fresh := by simp
      nothingElse := fun names proper _ => below names proper }
  · rw [node?_put _ _ _ _ (by simp), if_pos rfl]
  · rintro ⟨id, -, there⟩
    rw [descriptorLocation, inDescriptor] at there
    cases there

namespace Guarded

/-! ### The way to a staging directory -/

section Ways

variable (guarded : Guarded disk (above ++ [name]) copied described state)
  (wellFormed : disk.WellFormed) (ends : disk.resolve .entry path = .ok (.vacant above name))

include guarded wellFormed ends

/-- A staging directory in use is found by the path at which it has been made. -/
theorem designates : state.Designates path (above ++ [name]) :=
  guarded.changed.designates wellFormed ends guarded.stands

theorem leads : state.locate path = .ok (.live (above ++ [name])) :=
  locate_eq_ok_iff.mpr (guarded.designates wellFormed ends).target

theorem nonempty : path.bytes ≠ [] :=
  Archive.bytes_ne_nil_of_locate (guarded.leads wellFormed ends)

theorem arrives_inside {last : Name} (solid : IsSegment last) :
    state.Arrives (path.join ⟨last⟩) (above ++ [name]) last := by
  have stands : state.node? (above ++ [name] ++ []) = some .directory := by
    simpa using guarded.stands
  have arrives := arrives_of_extends guarded.wellFormed (guarded.leads wellFormed ends) stands
    solid (extends_join (guarded.nonempty wellFormed ends) solid)
  rwa [List.append_nil] at arrives

theorem arrives_executable
    (furnished : state.node? (binLocation (above ++ [name])) = some .directory) :
    state.Arrives (executablePath ⟨path⟩) (binLocation (above ++ [name])) executableName := by
  have nonempty := guarded.nonempty wellFormed ends
  have bin := extends_join nonempty isSegment_binName
  have longer : Extends (executablePath ⟨path⟩) path ([binName] ++ [executableName]) := by
    rw [executablePath_eq]
    exact bin.trans (extends_join bin.nonempty isSegment_executableName)
  exact arrives_of_extends guarded.wellFormed (guarded.leads wellFormed ends) furnished
    isSegment_executableName longer

end Ways

/-! ### Changes to a staging directory -/

section Changes

variable (guarded : Guarded disk top copied described state)

include guarded

/-- The directory for the executable is made. -/
theorem put_bin (belowRoot : top ≠ []) (vacant : state.node? (binLocation top) = none) :
    Guarded disk top copied described (state.put (binLocation top) .directory) := by
  have node? : ∀ other, binLocation top ≠ other →
      (state.put (binLocation top) .directory).node? other = state.node? other := by
    intro other differs
    rw [node?_put _ _ _ _ (by simp [binLocation]), if_neg differs]
  have executable := node? _ (binLocation_ne_executableLocation top)
  have descriptor := node? _ (binLocation_ne_descriptorLocation top)
  refine
    { wellFormed := guarded.wellFormed.put guarded.stands vacant (by decide) trivial
      changed := guarded.changed.trans (.put belowRoot (List.prefix_append ..))
      stands := (node? _ (by simp [binLocation])).trans guarded.stands
      bin := .inr ?_
      executable := guarded.executable.congr executable fun _ => rfl
      descriptor := guarded.descriptor.congr descriptor fun _ => rfl
      apart := ?_
      fresh := guarded.fresh
      nothingElse := ?_ }
  · rw [node?_put _ _ _ _ (by simp [binLocation]), if_pos rfl]
  · rw [SameFile, executable, descriptor]
    exact guarded.apart
  · intro names proper outside
    rw [node? _ (ne_of_not_mem_innerNames outside).1.symm]
    exact guarded.nothingElse names proper outside

/-- A copy of an executable is laid down in its directory. -/
theorem install_executable (belowRoot : top ≠ [])
    (furnished : state.node? (binLocation top) = some .directory) (file : File) :
    Guarded disk top (some file) described (state.install (executableLocation top) file) := by
  have ne_nil : executableLocation top ≠ [] := by simp [executableLocation]
  have differs := (executableLocation_ne_descriptorLocation top).symm
  have node? : ∀ other, other ≠ executableLocation top →
      (state.install (executableLocation top) file).node? other = state.node? other :=
    fun other proper => guarded.executable.node?_install ne_nil proper file
  refine
    { wellFormed := guarded.wellFormed.install guarded.executable furnished (by decide) file
      changed := guarded.changed.install belowRoot
        ((List.prefix_append ..).trans (List.prefix_append ..)) guarded.executable file
      stands := (node? _ (by simp [executableLocation, binLocation])).trans guarded.stands
      bin := .inr ((node? _ (binLocation_ne_executableLocation top)).trans furnished)
      executable := guarded.executable.install ne_nil guarded.changed.files.length_le file
      descriptor := guarded.executable.install_other ne_nil guarded.descriptor differs
        guarded.apart file
      apart := guarded.executable.sameFile_install ne_nil guarded.descriptor differs
        guarded.apart file
      fresh := guarded.fresh
      nothingElse := ?_ }
  intro names proper outside
  rw [node? _ (ne_of_not_mem_innerNames outside).2.1]
  exact guarded.nothingElse names proper outside

/-- A descriptor is laid down. -/
theorem install_descriptor (belowRoot : top ≠ []) (asked : Descriptor) :
    Guarded disk top copied (some (fileOf asked))
      (state.install (descriptorLocation top) (fileOf asked)) := by
  have ne_nil : descriptorLocation top ≠ [] := by simp [descriptorLocation]
  have differs := executableLocation_ne_descriptorLocation top
  have apart : ¬ state.SameFile (descriptorLocation top) (executableLocation top) := by
    rintro ⟨id, here, there⟩
    exact guarded.apart ⟨id, there, here⟩
  have node? : ∀ other, other ≠ descriptorLocation top →
      (state.install (descriptorLocation top) (fileOf asked)).node? other = state.node? other :=
    fun other proper => guarded.descriptor.node?_install ne_nil proper (fileOf asked)
  refine
    { wellFormed := guarded.wellFormed.install guarded.descriptor guarded.stands (by decide) _
      changed := guarded.changed.install belowRoot (List.prefix_append ..) guarded.descriptor _
      stands := (node? _ (by simp [descriptorLocation])).trans guarded.stands
      bin := ?_
      executable := guarded.descriptor.install_other ne_nil guarded.executable differs apart _
      descriptor := guarded.descriptor.install ne_nil guarded.changed.files.length_le _
      apart := ?_
      fresh := by simp [fileOf]
      nothingElse := ?_ }
  · rw [node? _ (binLocation_ne_descriptorLocation top)]
    exact guarded.bin
  · rintro ⟨id, here, there⟩
    exact guarded.descriptor.sameFile_install ne_nil guarded.executable differs apart _
      ⟨id, there, here⟩
  · intro names proper outside
    rw [node? _ (ne_of_not_mem_innerNames outside).2.2]
    exact guarded.nothingElse names proper outside

end Changes

/-! ### Tasks -/

section Tasks

variable (guarded : Guarded disk (above ++ [name]) copied described state)
  (wellFormed : disk.WellFormed) (ends : disk.resolve .entry path = .ok (.vacant above name))

include guarded wellFormed ends

/-- The directory for the executable is there already, or is made, or can not be made. -/
theorem prepareFor_cases :
    (∃ next, prepareFor (executablePath ⟨path⟩) state = .ok () next ∧
        Guarded disk (above ++ [name]) copied described next ∧
        next.node? (binLocation (above ++ [name])) = some .directory) ∨
      ∃ fault, prepareFor (executablePath ⟨path⟩) state = .error fault state := by
  have nonempty := guarded.nonempty wellFormed ends
  have joined : (path.join ⟨binName⟩).bytes ≠ [] :=
    (extends_join nonempty isSegment_binName).nonempty
  have arrives := guarded.arrives_inside wellFormed ends isSegment_binName
  have prepared : prepareFor (executablePath ⟨path⟩) state =
      ensureDirectory (path.join ⟨binName⟩) state := by
    rw [prepareFor, parent?_executablePath nonempty]
  rw [prepared, ensureDirectory]
  rcases guarded.bin with vacant | furnished
  · have absent := pathExists_of_vacant arrives vacant
    rw [if_neg (by simp [absent])]
    rcases makeDirectories_cases joined arrives vacant with ⟨-, made⟩ | ⟨-, failed⟩
    · have grown := guarded.put_bin (by simp) vacant
      refine .inl ⟨_, made, grown, ?_⟩
      exact grown.bin.resolve_left (by simp [binLocation, node?_put])
    · exact .inr ⟨_, failed⟩
  · rcases arrives.cases with reaches | ⟨-, refuses⟩
    · have means := locate_eq_ok_iff.mpr (reaches.resolve_occupied .target furnished
        (.inr (by simp)))
      have present : state.pathExists (path.join ⟨binName⟩) = true := by
        rw [pathExists, means]
      exact .inl ⟨state, if_pos present, guarded, furnished⟩
    · rw [if_neg (by simp [pathExists_of_refuses refuses])]
      exact .inr ⟨_, makeDirectories_of_refuses joined refuses⟩

/-- A copy of an executable is laid down, or the files stay as they were. -/
theorem addExecutable_cases {source : Path}
    (passesBy : ¬ disk.PassesThrough .target source (above ++ [name])) (log : List Event) :
    (∃ file value later, disk.Copies source file ∧
        addExecutable ⟨path⟩ source ⟨state, log⟩ = .ok value later ∧
        Guarded disk (above ++ [name]) (some file) described later.disk) ∨
      ∃ fault later, addExecutable ⟨path⟩ source ⟨state, log⟩ = .error fault later ∧
        Guarded disk (above ++ [name]) copied described later.disk := by
  rcases resolve_holds wellFormed ends with ⟨-, vacant, -⟩
  rw [addExecutable]
  rcases guarded.prepareFor_cases wellFormed ends with
    ⟨next, prepared, furnishing, furnished⟩ | ⟨fault, failed⟩
  · have means := furnishing.changed.sourceAt_eq wellFormed vacant passesBy
    have early : ∀ origin, next.openToRead source = .ok (.file origin) →
        origin < disk.files.length := by
      intro origin opened
      rcases sourceAt_eq_file_iff.mp (means ▸ sourceAt_of_openToRead opened) with ⟨place, -, stands⟩
      exact (wellFormed.file?_of_nodeAt? stands).1
    have arrives := furnishing.arrives_executable wellFormed ends furnished
    rcases copyBytes_install_cases furnishing.wellFormed arrives furnishing.executable early with
      ⟨origin, file, opened, known, copied⟩ | ⟨fault, failed⟩
    · left
      have ran : copyFile source (executablePath ⟨path⟩) state = _ :=
        (run_bind_of_ok prepared).trans copied
      have before : disk.file? origin = some file := by
        rw [← file?_of_grown furnishing.changed.files (early origin opened), known]
      have reads := openToRead_of_sourceAt (means ▸ sourceAt_of_openToRead opened) before
        (isReadable_of_openToRead opened known)
      exact ⟨_, _, _, ⟨origin, file, reads, before, rfl⟩,
        run_bind_of_ok (Job.call_of_ok ran),
        furnishing.install_executable (by simp) furnished _⟩
    · right
      have ran : copyFile source (executablePath ⟨path⟩) state = _ :=
        (run_bind_of_ok prepared).trans failed
      exact ⟨_, _, run_bind_of_error (Job.call_of_error ran), furnishing⟩
  · right
    have ran : copyFile source (executablePath ⟨path⟩) state = _ := run_bind_of_error failed
    exact ⟨_, _, run_bind_of_error (Job.call_of_error ran), guarded⟩

/-- A descriptor is laid down, or the files stay as they were. -/
theorem addDescriptor_cases (asked : Descriptor) (log : List Event) :
    (∃ value later, addDescriptor ⟨path⟩ asked ⟨state, log⟩ = .ok value later ∧
        Guarded disk (above ++ [name]) copied (some (fileOf asked)) later.disk) ∨
      ∃ fault later, addDescriptor ⟨path⟩ asked ⟨state, log⟩ = .error fault later ∧
        Guarded disk (above ++ [name]) copied described later.disk := by
  have arrives : state.Arrives (descriptorPath ⟨path⟩) (above ++ [name]) descriptorName :=
    guarded.arrives_inside wellFormed ends isSegment_descriptorName
  rw [addDescriptor_eq]
  rcases writeFile_install_cases arrives guarded.descriptor guarded.fresh
      (.plain (Utf8.ofString asked.render)) with wrote | ⟨fault, failed⟩
  · left
    exact ⟨_, _, run_bind_of_ok (Job.call_of_ok wrote),
      guarded.install_descriptor (by simp) asked⟩
  · right
    exact ⟨_, _, run_bind_of_error (Job.call_of_error failed), guarded⟩

/-- A staging directory in use is taken away with everything in it. -/
theorem removeTree_eq : removeTree path state = .ok () (state.cut (above ++ [name])) := by
  rcases resolve_holds wellFormed ends with ⟨-, vacant, -⟩
  have stays : (state.clear (above ++ [name])).node? (above ++ [name]) = some .directory := by
    rw [node?_clear _ _ _ (by simp), if_neg (by simp), guarded.stands]
  have emptied := (guarded.changed.clear wellFormed vacant).designates wellFormed ends stays
  exact removeTree_of_designates (guarded.designates wellFormed ends) emptied guarded.stands

/-- Once it is taken away the file system is what it was before. -/
theorem alike_cut : Alike (state.cut (above ++ [name])) disk := by
  rcases resolve_holds wellFormed ends with ⟨-, vacant, -⟩
  have alike := guarded.changed.alike_cut wellFormed (by simp)
  rwa [wellFormed.cut_of_vacant vacant] at alike

end Tasks

end Guarded

end StagingDirectory

end BundlePacker
