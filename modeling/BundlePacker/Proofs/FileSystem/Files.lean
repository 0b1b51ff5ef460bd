import BundlePacker.Proofs.FileSystem.Changes
import BundlePacker.Proofs.FileSystem.Reach

/-!
# Opening files

For a path of any form the ways are listed in which it can be opened for writing.  At a path that
arrives at a vacant name a file is made, unless the path is refused; what is written to it or copied
to it stands there afterwards, and a call that fails has done nothing.
-/

namespace BundlePacker.FileSystem

/-! ## Looking and changing -/

variable {system : FileSystem} {directory : Location} {name : Name}

theorem observe_of_ok {α : Type} {look : FileSystem → Except Fault α} {value : α}
    (seen : look system = .ok value) : Call.observe look system = .ok value system := by
  rw [Call.observe, seen]

theorem observe_of_error {α : Type} {look : FileSystem → Except Fault α} {fault : Fault}
    (unseen : look system = .error fault) : Call.observe look system = .error fault system := by
  rw [Call.observe, unseen]

/-! ## Opening files -/

/-- How a path is opened for writing, with what has been opened and what has changed. -/
inductive Opens (system : FileSystem) (path : Path) : EStateM.Result Fault FileSystem Handle → Prop
  /-- A missing file is made. -/
  | made {directory : Location} {name : Name}
      (ends : system.resolve .creation path = .ok (.vacant directory name)) :
      Opens system path
        (.ok (.file system.files.length)
          (system.putFile (directory ++ [name]) ⟨freshMode, .plain []⟩))
  /-- An old file loses its content. -/
  | emptied {location : Location} {id : Nat}
      (ends : system.resolve .creation path = .ok (.occupied (.live location)))
      (stands : system.node? location = some (.file id)) :
      Opens system path (.ok (.file id) (system.setContent id (.plain [])))
  /-- What is written to a device is lost. -/
  | swallowed {location : Location}
      (ends : system.resolve .creation path = .ok (.occupied (.live location)))
      (stands : system.node? location = some (.special .device)) :
      Opens system path (.ok .sink system)
  /-- Nothing has been opened and nothing has changed. -/
  | refused (fault : Fault) :
      Opens system path (.error fault system)

theorem opens_openToWrite (system : FileSystem) (path : Path) :
    Opens system path (openToWrite path system) := by
  rw [openToWrite]
  cases ends : system.resolve .creation path with
  | error fault =>
      exact .refused fault
  | ok spot =>
      cases spot with
      | vacant directory name =>
          exact .made ends
      | occupied place =>
          cases place with
          | removed between above =>
              exact .refused _
          | live location =>
              simp only [nodeAt?_live]
              split
              · next id stands =>
                split
                · exact .emptied ends stands
                · exact .refused _
              · next stands =>
                exact .swallowed ends stands
              · exact .refused _
              · exact .refused _

theorem opens_of_ok {system : FileSystem} {path : Path} {handle : Handle} {opened : FileSystem}
    (ran : openToWrite path system = .ok handle opened) : Opens system path (.ok handle opened) :=
  ran ▸ opens_openToWrite system path

/-- A path to a file opens that file. -/
theorem Opens.eq_of_file {path : Path} {handle : Handle} {opened : FileSystem} {place : Place}
    {id : Nat} (opens : Opens system path (.ok handle opened))
    (ends : system.resolve .creation path = .ok (.occupied place))
    (isFile : system.nodeAt? place = some (.file id)) : handle = .file id := by
  cases opens with
  | made other =>
      rw [ends] at other
      cases other
  | emptied other stands =>
      rw [ends] at other
      cases other
      rw [nodeAt?_live, stands] at isFile
      cases isFile
      rfl
  | swallowed other stands =>
      rw [ends] at other
      cases other
      rw [nodeAt?_live, stands] at isFile
      cases isFile

theorem openToWrite_of_vacant {path : Path}
    (ends : system.resolve .creation path = .ok (.vacant directory name)) :
    openToWrite path system =
      .ok (.file system.files.length)
        (system.putFile (directory ++ [name]) ⟨freshMode, .plain []⟩) := by
  rw [openToWrite, ends]
  rfl

theorem openToWrite_of_error {path : Path} {fault : Fault}
    (fails : system.resolve .creation path = .error fault) :
    openToWrite path system = .error fault system := by
  rw [openToWrite, fails]

/-- What a new file with a mode is once content has been written to it. -/
def written (mode : Mode) (content : Content) : File :=
  if content = .plain [] then ⟨mode, content⟩ else ⟨lowered mode, content⟩

@[simp]
theorem content_written (mode : Mode) (content : Content) :
    (written mode content).content = content := by
  rw [written]
  split <;> rfl

theorem permissions_lowered (mode : Mode) : (lowered mode).setWidth 9 = mode.setWidth 9 := by
  have kept : ∀ index < 9, (0o3777 : Mode).getLsbD index = true ∧
      (0o1777 : Mode).getLsbD index = true := by
    decide
  apply BitVec.eq_of_getElem_eq
  intro index bound
  rcases kept index bound with ⟨high, low⟩
  rw [lowered, BitVec.getElem_setWidth, BitVec.getElem_setWidth]
  split
  · rw [BitVec.getLsbD_and, high, Bool.and_true]
  · rw [BitVec.getLsbD_and, low, Bool.and_true]

/-- Writing does not touch the bits for reading, writing and executing. -/
@[simp]
theorem permissions_written (mode : Mode) (content : Content) :
    (written mode content).mode.setWidth 9 = mode.setWidth 9 := by
  rw [written]
  split
  · rfl
  · exact permissions_lowered mode

theorem readable_lowered (mode : Mode) : lowered mode &&& 0o400 = mode &&& 0o400 := by
  rw [lowered]
  split <;> rw [BitVec.and_assoc] <;> rfl

/-- Nor does it touch whether the file may be read. -/
theorem isReadable_written (file : File) (content : Content) :
    (written file.mode content).isReadable = file.isReadable := by
  rw [written]
  split
  · rfl
  · simp only [File.isReadable, readable_lowered]

theorem write_putFile (system : FileSystem) (location : Location) (mode : Mode)
    (content : Content) :
    write (.file system.files.length) content (system.putFile location ⟨mode, .plain []⟩) =
      .ok () (system.putFile location (written mode content)) := by
  by_cases empty : content = .plain []
  · subst empty
    rfl
  · have writes : write (.file system.files.length) content =
        Call.alter fun system' => .ok (system'.setContent system.files.length content) := by
      rw [write]
      rintro rfl
      exact empty rfl
    simp [writes, Call.alter, setContent_putFile, written, empty]

/-- A file that is written to a vacant name stands there afterwards, or its path is refused. -/
theorem writeFile_cases {path : Path} (vacant : system.node? (directory ++ [name]) = none)
    (arrives : system.Arrives path directory name) (content : Content) :
    (system.Reaches path directory name ∧
        writeFile path content system =
          .ok () (system.putFile (directory ++ [name]) (written freshMode content))) ∨
      ¬ Admissible path name ∧ writeFile path content system = .error (refusalOf path) system := by
  rcases arrives.cases with reaches | ⟨inadmissible, refuses⟩
  · left
    have opened := openToWrite_of_vacant (reaches.resolve_vacant .creation vacant)
    refine ⟨reaches, ?_⟩
    rw [writeFile, run_bind_of_ok opened, write_putFile]
  · right
    exact ⟨inadmissible, run_bind_of_error (openToWrite_of_error (refuses _))⟩

theorem sourceAt_eq_file_iff {path : Path} {id : Nat} :
    system.sourceAt path = .ok (.file id) ↔
      ∃ place, system.locate path = .ok place ∧ system.nodeAt? place = some (.file id) := by
  constructor
  · intro means
    rcases exists_of_bind_eq_ok means with ⟨place, found, opens⟩
    refine ⟨place, found, ?_⟩
    split at opens
    · next other stands =>
      cases opens
      exact stands
    · cases opens
    · cases opens
  · rintro ⟨place, found, stands⟩
    simp [sourceAt, Bind.bind, Except.bind, found, stands]

/-- A path is opened as the file that it means, if the file may be read. -/
theorem openToRead_eq_file_iff {path : Path} {id : Nat} :
    system.openToRead path = .ok (.file id) ↔
      system.sourceAt path = .ok (.file id) ∧ (system.file? id).all File.isReadable = true := by
  rw [openToRead]
  cases means : system.sourceAt path with
  | error fault =>
      simp [Bind.bind, Except.bind]
  | ok source =>
      cases source with
      | irregular =>
          simp [Bind.bind, Except.bind]
      | file other =>
          simp only [Bind.bind, Except.bind, Except.ok.injEq, Source.file.injEq]
          split
          · next readable =>
            rw [Except.ok.injEq, Source.file.injEq]
            exact ⟨fun same => ⟨same, same ▸ readable⟩, And.left⟩
          · next denied =>
            constructor
            · intro impossible
              cases impossible
            · rintro ⟨rfl, readable⟩
              exact absurd readable denied

theorem sourceAt_of_openToRead {path : Path} {id : Nat}
    (reads : system.openToRead path = .ok (.file id)) : system.sourceAt path = .ok (.file id) :=
  (openToRead_eq_file_iff.mp reads).1

theorem isReadable_of_openToRead {path : Path} {id : Nat} {file : File}
    (reads : system.openToRead path = .ok (.file id)) (content : system.file? id = some file) :
    file.isReadable = true := by
  simpa [content] using (openToRead_eq_file_iff.mp reads).2

theorem openToRead_of_sourceAt {path : Path} {id : Nat} {file : File}
    (means : system.sourceAt path = .ok (.file id)) (content : system.file? id = some file)
    (readable : file.isReadable = true) : system.openToRead path = .ok (.file id) :=
  openToRead_eq_file_iff.mpr ⟨means, by simp [content, readable]⟩

/-- Why no file can be read by a path. -/
inductive Unread (system : FileSystem) (path : Path) : Fault → Prop
  /-- The path means no file. -/
  | noFile {fault : Fault} (noFile : ∀ id, system.sourceAt path ≠ .ok (.file id)) :
      Unread system path fault
  /-- The path means a file that its owner may not read. -/
  | denied {id : Nat} {file : File} (means : system.sourceAt path = .ok (.file id))
      (content : system.file? id = some file) (denied : file.isReadable = false) :
      Unread system path (.refused .accessDenied)

/-- What is not opened as a file, or not at all, can not be read. -/
theorem unread_of_openToRead {path : Path} {fault : Fault}
    (fails : system.openToRead path = .error fault ∨ system.openToRead path = .ok .irregular) :
    Unread system path fault := by
  cases means : system.sourceAt path with
  | error cause =>
      exact .noFile (by simp [means])
  | ok source =>
      cases source with
      | irregular =>
          exact .noFile (by simp [means])
      | file id =>
          rw [openToRead, means] at fails
          simp only [Bind.bind, Except.bind] at fails
          cases content : system.file? id with
          | none =>
              simp [content] at fails
          | some file =>
              cases readable : file.isReadable with
              | true =>
                  simp [content, readable] at fails
              | false =>
                  simp only [content, Option.all_some, readable, Bool.false_eq_true, if_false,
                    Except.error.injEq, reduceCtorEq, or_false] at fails
                  subst fails
                  exact .denied means content readable

/-- A path that passes by a location means the same file whatever happens there. -/
theorem sourceAt_of_passing_by (wellFormed : system.WellFormed) {state : FileSystem}
    {location : Location} {path : Path} {id : Nat} (belowRoot : location ≠ [])
    (same : ∀ entry ∈ system.lookedUp .target path, ¬ location <+: entry →
      state.node? entry = system.node? entry)
    (places : state.workingDirectory = system.workingDirectory.without location)
    (passesBy : ¬ system.PassesThrough .target path location)
    (means : system.sourceAt path = .ok (.file id)) :
    state.sourceAt path = .ok (.file id) := by
  rcases sourceAt_eq_file_iff.mp means with ⟨place, found, isFile⟩
  have leads := locate_eq_ok_iff.mp found
  have noDirectory : system.nodeAt? (Spot.occupied place).place ≠ some .directory := by
    simp [Spot.place, isFile]
  rcases (resolve_mem_lookedUp wellFormed leads).resolve_left noDirectory with
    ⟨entry, member, there⟩
  have ends := (resolve_passing_by wellFormed belowRoot same places passesBy leads noDirectory).1
  cases there
  have outside := not_prefix_of_passing_by passesBy member
  exact sourceAt_eq_file_iff.mpr
    ⟨_, locate_eq_ok_iff.mpr ends, (same entry member outside).trans isFile⟩

theorem WellFormed.file?_of_nodeAt? (wellFormed : system.WellFormed) {place : Place} {id : Nat}
    (stands : system.nodeAt? place = some (.file id)) :
    id < system.files.length ∧ ∃ file, system.file? id = some file := by
  have known : id < system.files.length := wellFormed.fits_at stands
  exact ⟨known, system.files[id], List.getElem?_eq_getElem known⟩

/-- A copy to a vacant name is a new file with the mode and the content of the one that was read. -/
theorem copyBytes_of_vacant {source path : Path} {id : Nat} {file : File}
    (ends : system.resolve .creation path = .ok (.vacant directory name))
    (reads : system.openToRead source = .ok (.file id)) (content : system.file? id = some file) :
    copyBytes source path system =
      .ok file.content.bytes.length
        (system.putFile (directory ++ [name]) (written file.mode file.content)) := by
  have observed : (Call.observe fun system => system.openToRead source) system =
      .ok (.file id) system := observe_of_ok reads
  have known : id < system.files.length := (List.getElem?_eq_some_iff.mp content).1
  have kept : ∀ other, (system.putFile (directory ++ [name]) other).file? id = some file := by
    intro other
    rw [file?_putFile, if_neg (Nat.ne_of_lt known), content]
  have granted : grant (.file system.files.length) file.mode
      (system.putFile (directory ++ [name]) ⟨freshMode, .plain []⟩) =
      .ok () (system.putFile (directory ++ [name]) ⟨file.mode, .plain []⟩) := by
    simp only [grant, Call.alter, setMode_putFile]
  apply (run_bind_of_ok observed).trans
  apply (run_bind_of_ok (run_get _)).trans
  apply (run_bind_of_ok (openToWrite_of_vacant ends)).trans
  apply (run_bind_of_ok (run_get _)).trans
  simp only [content, kept]
  apply (run_bind_of_ok granted).trans
  exact run_bind_of_ok (write_putFile ..)

/--
A copy to a vacant name is the file that was read.  Otherwise nothing has changed, because no file
can be read or the path of the copy is refused.
-/
theorem copyBytes_cases (wellFormed : system.WellFormed) {path : Path}
    (vacant : system.node? (directory ++ [name]) = none)
    (arrives : system.Arrives path directory name) (source : Path) :
    (system.Reaches path directory name ∧
        ∃ id file, system.openToRead source = .ok (.file id) ∧ system.file? id = some file ∧
          copyBytes source path system =
            .ok file.content.bytes.length
              (system.putFile (directory ++ [name]) (written file.mode file.content))) ∨
      ∃ fault, copyBytes source path system = .error fault system ∧
        (Unread system source fault ∨
          (∃ id, system.openToRead source = .ok (.file id)) ∧ ¬ Admissible path name ∧
            fault = refusalOf path) := by
  cases reads : system.openToRead source with
  | error fault =>
      right
      exact ⟨fault, run_bind_of_error (observe_of_error reads),
        .inl (unread_of_openToRead (.inl reads))⟩
  | ok found =>
      have observed : (Call.observe fun system => system.openToRead source) system =
          .ok found system := observe_of_ok reads
      cases found with
      | irregular =>
          right
          exact ⟨.irregularSource, run_bind_of_ok observed,
            .inl (unread_of_openToRead (.inr reads))⟩
      | file id =>
          rcases sourceAt_eq_file_iff.mp (sourceAt_of_openToRead reads) with ⟨place, -, inside⟩
          rcases wellFormed.file?_of_nodeAt? inside with ⟨-, file, content⟩
          rcases arrives.cases with reaches | ⟨inadmissible, refuses⟩
          · left
            have ends := reaches.resolve_vacant .creation vacant
            exact ⟨reaches, id, file, rfl, content, copyBytes_of_vacant ends reads content⟩
          · right
            refine ⟨refusalOf path, (run_bind_of_ok observed).trans ?_,
              .inr ⟨⟨id, rfl⟩, inadmissible, rfl⟩⟩
            apply (run_bind_of_ok (run_get _)).trans
            exact run_bind_of_error (openToWrite_of_error (refuses _))

end BundlePacker.FileSystem
