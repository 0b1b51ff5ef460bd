import BundlePacker.Proofs.FileSystem.Deposit

/-!
# Files that are put over old ones

A name at which files are laid down time and again is vacant at first and means an old file later.
Laying a file down there comes to one change in both cases: the name means a file that is as it has
been laid down, and nothing else has changed.

The main statements are about the two ways of laying a file down, copying and writing.  Each of them
makes this change, or it is refused and has changed nothing.
-/

namespace BundlePacker.FileSystem

variable {system : FileSystem} {location other directory : Location} {name : Name} {path : Path}
  {id : Nat} {file old : File} {mode : Mode} {content : Content}

/-! ## Exchanging a file -/

/-- Exchange a file, whatever its names are. -/
def setFile (system : FileSystem) (id : Nat) (file : File) : FileSystem :=
  { system with files := system.files.set id file }

@[simp]
theorem node?_setFile (system : FileSystem) (id : Nat) (file : File) (location : Location) :
    (system.setFile id file).node? location = system.node? location :=
  rfl

@[simp]
theorem setFile_setFile (system : FileSystem) (id : Nat) (before file : File) :
    (system.setFile id before).setFile id file = system.setFile id file := by
  simp [setFile]

theorem length_of_file? (known : system.file? id = some file) : id < system.files.length :=
  (List.getElem?_eq_some_iff.mp known).1

theorem file?_setFile (known : id < system.files.length) (file : File) (searched : Nat) :
    (system.setFile id file).file? searched =
      if searched = id then some file else system.file? searched := by
  by_cases same : searched = id
  · simp [setFile, file?, same, known]
  · simp [setFile, file?, same, Ne.symm same]

theorem view?_setFile (known : id < system.files.length) (file : File) (other : Location) :
    (system.setFile id file).view? other =
      if system.node? other = some (.file id) then some (.file file) else system.view? other := by
  simp only [view?, node?_setFile]
  cases stands : system.node? other with
  | none =>
      rfl
  | some node =>
      cases node with
      | directory | link _ | special _ => rfl
      | file searched => simp [file?_setFile known, apply_ite (Option.map View.file)]

theorem setContent_eq_setFile (known : system.file? id = some file) (content : Content) :
    system.setContent id content = system.setFile id ⟨lowered file.mode, content⟩ := by
  simp [setContent, setFile, List.modify_eq_set_getElem?, file?] at known ⊢
  simp [known]

theorem setMode_eq_setFile (known : system.file? id = some file) (mode : Mode) :
    system.setMode id mode = system.setFile id { file with mode } := by
  simp [setMode, setFile, List.modify_eq_set_getElem?, file?] at known ⊢
  simp [known]

/-! ## Old files that are opened -/

/-- An old file loses its content, if its owner may write to it. -/
theorem openToWrite_of_file
    (ends : system.resolve .creation path = .ok (.occupied (.live location)))
    (stands : system.node? location = some (.file id)) (known : system.file? id = some old) :
    openToWrite path system =
      if old.isWritable then .ok (.file id) (system.setFile id ⟨lowered old.mode, .plain []⟩)
      else .error (.refused .accessDenied) system := by
  rw [openToWrite, ends]
  simp only [nodeAt?_live, stands, known, Option.all_some, setContent_eq_setFile known]

theorem write_setFile (known : id < system.files.length) (mode : Mode) (content : Content) :
    write (.file id) content (system.setFile id ⟨mode, .plain []⟩) =
      .ok () (system.setFile id (written mode content)) := by
  have emptied : (system.setFile id ⟨mode, .plain []⟩).file? id = some ⟨mode, .plain []⟩ := by
    rw [file?_setFile known, if_pos rfl]
  by_cases empty : content = .plain []
  · subst empty
    rfl
  · have writes : write (.file id) content =
        Call.alter fun system' => .ok (system'.setContent id content) := by
      rw [write]
      rintro rfl
      exact empty rfl
    simp [writes, Call.alter, setContent_eq_setFile emptied, written, empty]

/-- A whole write replaces what an old file holds, and a file that may not be written to stays. -/
theorem writeFile_of_file
    (ends : system.resolve .creation path = .ok (.occupied (.live location)))
    (stands : system.node? location = some (.file id)) (known : system.file? id = some old)
    (content : Content) :
    writeFile path content system =
      if old.isWritable then .ok () (system.setFile id (written (lowered old.mode) content))
      else .error (.refused .accessDenied) system := by
  have opened := openToWrite_of_file ends stands known
  split
  · next writable =>
    rw [if_pos writable] at opened
    rw [writeFile, run_bind_of_ok opened, write_setFile (length_of_file? known)]
  · next readOnly =>
    rw [if_neg readOnly] at opened
    rw [writeFile, run_bind_of_error opened]

/-- A copy replaces an old file that is not its source, mode and content. -/
theorem copyBytes_of_file
    (ends : system.resolve .creation path = .ok (.occupied (.live location)))
    (stands : system.node? location = some (.file id)) (known : system.file? id = some old)
    {source : Path} {origin : Nat}
    (reads : system.openToRead source = .ok (.file origin))
    (found : system.file? origin = some file) (differs : origin ≠ id) :
    copyBytes source path system =
      if old.isWritable then
        .ok file.content.bytes.length (system.setFile id (written file.mode file.content))
      else .error (.refused .accessDenied) system := by
  have here := length_of_file? known
  have opened := openToWrite_of_file ends stands known
  have observed : (Call.observe fun system => system.openToRead source) system =
      .ok (.file origin) system := observe_of_ok reads
  apply (run_bind_of_ok observed).trans
  apply (run_bind_of_ok (run_get _)).trans
  split
  · next writable =>
    rw [if_pos writable] at opened
    apply (run_bind_of_ok opened).trans
    apply (run_bind_of_ok (run_get _)).trans
    have kept : (system.setFile id ⟨lowered old.mode, .plain []⟩).file? origin = some file := by
      rw [file?_setFile here, if_neg differs, found]
    have emptied : (system.setFile id ⟨lowered old.mode, .plain []⟩).file? id =
        some ⟨lowered old.mode, .plain []⟩ := by
      rw [file?_setFile here, if_pos rfl]
    have granted : grant (.file id) file.mode (system.setFile id ⟨lowered old.mode, .plain []⟩) =
        .ok () (system.setFile id ⟨file.mode, .plain []⟩) := by
      simp only [grant, Call.alter, setMode_eq_setFile emptied, setFile_setFile]
    simp only [found, kept]
    apply (run_bind_of_ok granted).trans
    exact run_bind_of_ok (write_setFile here ..)
  · next readOnly =>
    rw [if_neg readOnly] at opened
    exact run_bind_of_error opened

/-! ## Laying files down -/

/-- Lay a file down at a location: in the place of the file that it means, or as a new one. -/
def install (system : FileSystem) (location : Location) (file : File) : FileSystem :=
  match system.node? location with
  | some (.file id) => system.setFile id file
  | _ => system.putFile location file

theorem install_of_vacant (vacant : system.node? location = none) (file : File) :
    system.install location file = system.putFile location file := by
  rw [install, vacant]

theorem install_of_file (stands : system.node? location = some (.file id)) (file : File) :
    system.install location file = system.setFile id file := by
  rw [install, stands]

/--
Whether a location is vacant or means a file that is not among the first so many, and is as it has
been laid down.
-/
def Bears (system : FileSystem) (early : Nat) (location : Location) : Option File → Prop
  | none => system.node? location = none
  | some file =>
    ∃ id, early ≤ id ∧ system.node? location = some (.file id) ∧ system.file? id = some file

variable {early : Nat} {held : Option File}

namespace Bears

variable (bears : system.Bears early location held)

include bears

/-- What a location bears is decided by its node and by the files. -/
theorem congr {next : FileSystem} (node : next.node? location = system.node? location)
    (files : ∀ id, next.file? id = system.file? id) : next.Bears early location held := by
  cases held with
  | none =>
      exact node.trans bears
  | some file =>
      rcases bears with ⟨id, late, stands, known⟩
      exact ⟨id, late, node.trans stands, (files id).trans known⟩

theorem view?_eq : system.view? location = held.map .file := by
  cases held with
  | none =>
      have vacant : system.node? location = none := bears
      simp [view?, vacant]
  | some file =>
      rcases bears with ⟨id, -, stands, known⟩
      simp [view?, stands, known]

theorem eq_none (vacant : system.node? location = none) : held = none := by
  cases held with
  | none =>
      rfl
  | some file =>
      rcases bears with ⟨id, -, stands, -⟩
      cases vacant.symm.trans stands

theorem early_le (stands : system.node? location = some (.file id)) : early ≤ id := by
  cases held with
  | none =>
      cases bears.symm.trans stands
  | some file =>
      rcases bears with ⟨found, late, occupied, -⟩
      cases occupied.symm.trans stands
      exact late

/-- What has been laid down at a location is there. -/
theorem install (belowRoot : location ≠ []) (grown : early ≤ system.files.length) (file : File) :
    (system.install location file).Bears early location (some file) := by
  cases held with
  | none =>
      have vacant : system.node? location = none := bears
      refine ⟨system.files.length, grown, ?_, ?_⟩
      · rw [install_of_vacant vacant, node?_putFile _ _ _ _ belowRoot, if_pos rfl]
      · rw [install_of_vacant vacant, file?_putFile, if_pos rfl]
  | some old =>
      rcases bears with ⟨id, late, stands, known⟩
      refine ⟨id, late, ?_, ?_⟩
      · rw [install_of_file stands, node?_setFile, stands]
      · rw [install_of_file stands, file?_setFile (length_of_file? known), if_pos rfl]

theorem node?_install (belowRoot : location ≠ []) (differs : other ≠ location) (file : File) :
    (system.install location file).node? other = system.node? other := by
  cases held with
  | none =>
      rw [install_of_vacant bears, node?_putFile _ _ _ _ belowRoot, if_neg (Ne.symm differs)]
  | some old =>
      rcases bears with ⟨id, -, stands, -⟩
      rw [install_of_file stands, node?_setFile]

/-- What another location bears stays, unless it means the same file. -/
theorem install_other {also : Option File} (belowRoot : location ≠ [])
    (bearsAlso : system.Bears early other also) (differs : other ≠ location)
    (apart : ¬ system.SameFile location other) (file : File) :
    (system.install location file).Bears early other also := by
  have node := bears.node?_install belowRoot differs file
  cases also with
  | none =>
      exact node.trans bearsAlso
  | some standing =>
      rcases bearsAlso with ⟨id, late, stands, known⟩
      refine ⟨id, late, node.trans stands, ?_⟩
      cases held with
      | none =>
          have proper : id ≠ system.files.length := Nat.ne_of_lt (length_of_file? known)
          rw [install_of_vacant bears, file?_putFile, if_neg proper, known]
      | some old =>
          rcases bears with ⟨occupied, -, here, there⟩
          have proper : id ≠ occupied := by
            rintro rfl
            exact apart ⟨id, here, stands⟩
          rw [install_of_file here, file?_setFile (length_of_file? there), if_neg proper, known]

/-- A file that is laid down at a location does not go by another name. -/
theorem sameFile_install {also : Option File} (belowRoot : location ≠ [])
    (bearsAlso : system.Bears early other also) (differs : other ≠ location)
    (apart : ¬ system.SameFile location other) (file : File) :
    ¬ (system.install location file).SameFile location other := by
  rintro ⟨id, here, there⟩
  rw [bears.node?_install belowRoot differs] at there
  cases held with
  | none =>
      rw [install_of_vacant bears, node?_putFile _ _ _ _ belowRoot, if_pos rfl] at here
      cases here
      cases also with
      | none =>
          rw [bearsAlso] at there
          cases there
      | some standing =>
          rcases bearsAlso with ⟨found, -, stands, known⟩
          rw [stands] at there
          cases there
          exact Nat.lt_irrefl _ (length_of_file? known)
  | some old =>
      rcases bears with ⟨occupied, -, stands, -⟩
      rw [install_of_file stands, node?_setFile] at here
      exact apart ⟨id, here, there⟩

/-- Nothing else looks different when a file is laid down that has no other name. -/
theorem view?_install (filed : system.Filed) (sole : system.Sole location)
    (belowRoot : location ≠ []) (differs : other ≠ location) (file : File) :
    (system.install location file).view? other = system.view? other := by
  cases held with
  | none =>
      rw [install_of_vacant bears, view?_putFile filed belowRoot, if_neg (Ne.symm differs)]
  | some old =>
      rcases bears with ⟨id, -, stands, known⟩
      have apart : system.node? other ≠ some (.file id) := fun also =>
        differs (sole other ⟨id, stands, also⟩).symm
      rw [install_of_file stands, view?_setFile (length_of_file? known), if_neg apart]

end Bears

/-- A path that reaches the name leads there when it is opened for writing. -/
theorem Bears.exists_spot (bears : system.Bears early (directory ++ [name]) held)
    (reaches : system.Reaches path directory name) :
    ∃ spot, system.resolve .creation path = .ok spot ∧
      spot.place = .live (directory ++ [name]) := by
  cases held with
  | none =>
      exact ⟨_, reaches.resolve_vacant .creation bears, rfl⟩
  | some file =>
      rcases bears with ⟨id, -, stands, -⟩
      exact ⟨_, reaches.resolve_occupied .creation stands (.inr (by simp)), rfl⟩

theorem WellFormed.install (wellFormed : system.WellFormed)
    (bears : system.Bears early (directory ++ [name]) held)
    (stands : system.node? directory = some .directory) (isName : IsName name) (file : File) :
    (system.install (directory ++ [name]) file).WellFormed := by
  cases held with
  | none =>
      rw [install_of_vacant bears]
      exact wellFormed.putFile stands bears isName file
  | some old =>
      rcases bears with ⟨id, -, occupied, -⟩
      rw [install_of_file occupied]
      exact wellFormed.withFiles (by simp)

/-- Files that have been there before a change are not touched where a later one is exchanged. -/
theorem ChangedWithin.install {top : Location} {first second : FileSystem}
    (changed : ChangedWithin top first second) (belowRoot : top ≠ []) (inside : top <+: location)
    (bears : second.Bears first.files.length location held) (file : File) :
    ChangedWithin top first (second.install location file) := by
  cases held with
  | none =>
      rw [install_of_vacant bears]
      exact changed.trans (.putFile belowRoot inside)
  | some old =>
      rcases bears with ⟨id, late, stands, -⟩
      rw [install_of_file stands]
      refine ⟨changed.nodes, changed.places, ?_⟩
      rcases changed.files with ⟨more, grown⟩
      refine ⟨more.set (id - first.files.length) file, ?_⟩
      rw [setFile, ← grown, List.set_append_right _ _ late]

/-! ## Copies and whole writes -/

/-- Where a path leads to a location, a copy is laid down there if what that bears admits it. -/
theorem copyBytes_of_bears (wellFormed : system.WellFormed) {spot : Spot}
    (ends : system.resolve .creation path = .ok spot) (there : spot.place = .live location)
    (bears : system.Bears early location held) {source : Path} {origin : Nat}
    (reads : system.openToRead source = .ok (.file origin))
    (found : system.file? origin = some file)
    (apart : system.node? location ≠ some (.file origin)) :
    copyBytes source path system =
      if held.all File.isWritable then
        .ok file.content.bytes.length
          (system.install location (written file.mode file.content))
      else .error (.refused .accessDenied) system := by
  have holds := resolve_holds wellFormed ends
  cases spot with
  | vacant directory name =>
      cases there
      have vacant : system.node? (directory ++ [name]) = none := holds.2.1
      rw [bears.eq_none vacant, install_of_vacant vacant, copyBytes_of_vacant ends reads found]
      rfl
  | occupied place =>
      cases there
      rcases holds with ⟨node, stands, -⟩
      cases held with
      | none =>
          cases bears.symm.trans stands
      | some old =>
          rcases bears with ⟨id, -, occupied, known⟩
          have differs : origin ≠ id := by
            rintro rfl
            exact apart occupied
          rw [install_of_file occupied, copyBytes_of_file ends occupied known reads found differs]
          rfl

/-- A copy of a file that has been there before is laid down, or nothing has changed. -/
theorem copyBytes_install_cases (wellFormed : system.WellFormed)
    (arrives : system.Arrives path directory name)
    (bears : system.Bears early (directory ++ [name]) held) {source : Path}
    (before : ∀ origin, system.openToRead source = .ok (.file origin) → origin < early) :
    (∃ origin file, system.openToRead source = .ok (.file origin) ∧
        system.file? origin = some file ∧
        copyBytes source path system =
          .ok file.content.bytes.length
            (system.install (directory ++ [name]) (written file.mode file.content))) ∨
      ∃ fault, copyBytes source path system = .error fault system := by
  cases reads : system.openToRead source with
  | error fault =>
      exact .inr ⟨fault, run_bind_of_error (observe_of_error reads)⟩
  | ok found =>
      have observed : (Call.observe fun system => system.openToRead source) system =
          .ok found system := observe_of_ok reads
      cases found with
      | irregular =>
          exact .inr ⟨.irregularSource, run_bind_of_ok observed⟩
      | file origin =>
          rcases sourceAt_eq_file_iff.mp (sourceAt_of_openToRead reads) with ⟨place, -, inside⟩
          rcases wellFormed.file?_of_nodeAt? inside with ⟨-, file, content⟩
          rcases arrives.cases with reaches | ⟨-, refuses⟩
          · rcases bears.exists_spot reaches with ⟨spot, ends, there⟩
            have apart : system.node? (directory ++ [name]) ≠ some (.file origin) := fun same =>
              Nat.not_le_of_lt (before origin reads) (bears.early_le same)
            have copied := copyBytes_of_bears wellFormed ends there bears reads content apart
            split at copied
            · exact .inl ⟨origin, file, rfl, content, copied⟩
            · exact .inr ⟨_, copied⟩
          · refine .inr ⟨refusalOf path, (run_bind_of_ok observed).trans ?_⟩
            apply (run_bind_of_ok (run_get _)).trans
            exact run_bind_of_error (openToWrite_of_error (refuses _))

/-- What is written over files with the mode of new ones is laid down, or nothing has changed. -/
theorem writeFile_install_cases (arrives : system.Arrives path directory name)
    (bears : system.Bears early (directory ++ [name]) held)
    (fresh : ∀ file ∈ held, file.mode = freshMode) (content : Content) :
    writeFile path content system =
        .ok () (system.install (directory ++ [name]) ⟨freshMode, content⟩) ∨
      ∃ fault, writeFile path content system = .error fault system := by
  cases held with
  | none =>
      rw [install_of_vacant bears, ← written_freshMode]
      rcases writeFile_cases bears arrives content with ⟨-, wrote⟩ | ⟨-, failed⟩
      · exact .inl wrote
      · exact .inr ⟨_, failed⟩
  | some old =>
      rcases bears with ⟨id, -, stands, known⟩
      rcases arrives.cases with reaches | ⟨-, refuses⟩
      · left
        have mode : old.mode = freshMode := fresh old rfl
        have writable : old.isWritable = true := by simp [File.isWritable, mode, freshMode]
        have ends := reaches.resolve_occupied .creation stands (.inr (by simp))
        rw [install_of_file stands, writeFile_of_file ends stands known, if_pos writable, mode,
          lowered_freshMode, written_freshMode]
      · exact .inr ⟨_, run_bind_of_error (openToWrite_of_error (refuses _))⟩

end BundlePacker.FileSystem
