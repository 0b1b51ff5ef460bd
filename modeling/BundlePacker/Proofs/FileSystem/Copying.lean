import BundlePacker.Proofs.FileSystem.Install
import BundlePacker.Proofs.FileSystem.Raising

/-!
# Files that are copied

Copying a file to a path raises the directories above the path and lays the copy down.  A copy that
is refused leaves nothing but directories.

The main statement says what there is after a copy that has not been refused, if the path has meant
nothing or a file that is not the source and has no other name.  The path means a file with the
bytes and the mode of the source, whatever the old file was like, and nothing else is new but the
directories.  A path that leads back may mean something when directories have been made for it, and
the source in particular, so that the condition is asked of it once more then.
-/

namespace BundlePacker.FileSystem

variable {system first middle last : FileSystem} {location : Location} {held : Option File}
  {count : Nat} {file : File} {source path destination : Path}

/-! ## What can be replaced -/

/-- Whether a path means nothing, or a file that has no other name and is not the source. -/
def Replaceable (system : FileSystem) (source path : Path) : Prop :=
  ∀ place, system.locate path = .ok place →
    ∃ location id, place = .live location ∧ system.node? location = some (.file id) ∧
      system.Sole location ∧ system.openToRead source ≠ .ok (.file id)

theorem replaceable_of_absent (absent : system.pathExists path = false) (source : Path) :
    system.Replaceable source path := by
  intro place found
  have impossible := absent.symm.trans (pathExists_iff.mpr ⟨place, found⟩)
  cases impossible

/-- With the directories of a path that does not lead back there is nothing yet at the path. -/
theorem prepareFor_cases (wellFormed : first.WellFormed) (plain : parentName ∉ path.names)
    (ran : prepareFor path first = .ok () middle) :
    middle = first ∨ ∀ place, middle.locate path ≠ .ok place := by
  rcases parent : path.parent? with - | upper
  · rw [prepareFor, parent] at ran
    cases ran
    exact .inl rfl
  rw [prepareFor, parent] at ran
  simp only [ensureDirectory] at ran
  split at ran
  · cases ran
    exact .inl rfl
  next absent =>
  by_cases nonempty : upper.bytes = []
  · left
    have nothing : makeDirectories upper first = .ok () first :=
      makeDirectoryIn_of_isDirectory (.inl nonempty) _
    cases nothing.symm.trans ran
    rfl
  · right
    rcases Path.exists_names_of_parent? parent nonempty with ⟨rest, longer, further⟩
    have missing := isDirectory_of_absent (by simpa using absent : first.pathExists upper = false)
    rw [longer, List.mem_append, not_or] at plain
    rcases meansEmpty_of_makeDirectories wellFormed nonempty plain.1 missing ran with
      ⟨top, leads, empty⟩
    have starts := ((Path.above_of_parent? parent).starts nonempty).symm
    exact empty.locate_ne_ok leads longer starts plain.2 further

/-- What can be replaced beforehand can be replaced when the directories have been raised. -/
theorem Replaceable.prepareFor (replaceable : first.Replaceable source path)
    (wellFormed : first.WellFormed) (direct : ¬ (middle ≠ first ∧ parentName ∈ path.names))
    (ran : prepareFor path first = .ok () middle) : middle.Replaceable source path := by
  by_cases same : middle = first
  · rw [same]
    exact replaceable
  · have plain : parentName ∉ path.names := fun back => direct ⟨same, back⟩
    intro place found
    exact absurd found ((prepareFor_cases wellFormed plain ran).resolve_left same place)

/-! ## How a copy ends -/

theorem exists_write (handle : Handle) (content : Content) (system : FileSystem) :
    ∃ next, write handle content system = .ok () next := by
  rcases handle with id | -
  · rcases content with (- | ⟨byte, more⟩) | entries
    · exact ⟨_, rfl⟩
    · exact ⟨_, rfl⟩
    · exact ⟨_, rfl⟩
  · exact ⟨_, rfl⟩

theorem exists_grant (handle : Handle) (mode : Mode) (system : FileSystem) :
    ∃ next, grant handle mode system = .ok () next := by
  cases handle with
  | file id => exact ⟨_, rfl⟩
  | sink => exact ⟨_, rfl⟩

/-- What has been opened for a copy takes it. -/
theorem exists_fill (handle : Handle) (file : File) (content : Content) (system : FileSystem) :
    ∃ last, (do
      grant handle file.mode
      write handle content
      pure content.bytes.length : Call Nat) system = .ok content.bytes.length last := by
  rcases exists_grant handle file.mode system with ⟨granted, grants⟩
  rcases exists_write handle content granted with ⟨last, writes⟩
  exact ⟨last, (run_bind_of_ok grants).trans (run_bind_of_ok writes)⟩

/-- A copy changes nothing, or a file has been read and its copy opened, and then it succeeds. -/
theorem copyBytes_ends (source path : Path) (system : FileSystem) :
    (∃ fault, copyBytes source path system = .error fault system) ∨
      ∃ origin handle opened count last, system.openToRead source = .ok (.file origin) ∧
        openToWrite path system = .ok handle opened ∧
        copyBytes source path system = .ok count last := by
  cases reads : system.openToRead source with
  | error fault =>
      exact .inl ⟨fault, run_bind_of_error (observe_of_error reads)⟩
  | ok found =>
      have observed : (Call.observe fun system => system.openToRead source) system =
          .ok found system := observe_of_ok reads
      cases found with
      | irregular =>
          exact .inl ⟨.irregularSource, run_bind_of_ok observed⟩
      | file origin =>
          have opens := opens_openToWrite system path
          cases opened : openToWrite path system with
          | error fault next =>
              rw [opened] at opens
              cases opens
              refine .inl ⟨fault, (run_bind_of_ok observed).trans ?_⟩
              exact (run_bind_of_ok (run_get _)).trans (run_bind_of_error opened)
          | ok handle next =>
              right
              have began : copyBytes source path system = _ :=
                (run_bind_of_ok observed).trans ((run_bind_of_ok (run_get _)).trans
                  ((run_bind_of_ok opened).trans (run_bind_of_ok (run_get _))))
              generalize system.file? origin = before at began
              generalize next.file? origin = after at began
              rcases before with - | file
              · exact ⟨origin, handle, next, 0, next, rfl, rfl, began⟩
              · rcases after with - | copy
                · exact ⟨origin, handle, next, 0, next, rfl, rfl, began⟩
                · rcases exists_fill handle file copy.content next with ⟨last, fills⟩
                  exact ⟨origin, handle, next, _, last, rfl, rfl, began.trans fills⟩

/-! ## Where a copy lands -/

/--
Whether a copy of a file lands at a location, where there is nothing or a file that has no other
name and is not the source.
-/
structure Lands (system : FileSystem) (source path : Path) (location : Location)
    (held : Option File) (file : File) : Prop where
  belowRoot : location ≠ []
  bears : system.Bears 0 location held
  sole : system.Sole location
  leads : ∃ spot, system.resolve .creation path = .ok spot ∧ spot.place = .live location
  reads : ∃ id, system.openToRead source = .ok (.file id) ∧ system.file? id = some file ∧
    system.node? location ≠ some (.file id)

/-- A path that can be opened leads to where a copy lands, if it can be replaced. -/
theorem Replaceable.exists_lands (replaceable : system.Replaceable source path)
    (wellFormed : system.WellFormed) {spot : Spot} {id : Nat}
    (ends : system.resolve .creation path = .ok spot)
    (reads : system.openToRead source = .ok (.file id)) (known : system.file? id = some file) :
    ∃ location held, system.Lands source path location held file := by
  have holds := resolve_holds wellFormed ends
  cases spot with
  | vacant directory name =>
      have vacant : system.node? (directory ++ [name]) = none := holds.2.1
      refine ⟨_, none, by simp, vacant, ?_, ⟨_, ends, rfl⟩, id, reads, known, by simp [vacant]⟩
      rintro other ⟨id, stands, -⟩
      cases vacant.symm.trans stands
  | occupied place =>
      have found : system.locate path = .ok place :=
        locate_of_resolve (fun _ _ stands => stands) rfl (by simp) (by simp) ends
      rcases replaceable place found with ⟨location, old, rfl, stands, sole, apart⟩
      rcases wellFormed.filed.exists_file stands with ⟨held, knownOld⟩
      refine ⟨location, some held, ?_, ⟨old, Nat.zero_le old, stands, knownOld⟩, sole,
        ⟨_, ends, rfl⟩, id, reads, known, ?_⟩
      · rintro rfl
        simp at stands
      · intro same
        cases stands.symm.trans same
        exact apart reads

namespace Lands

variable (lands : system.Lands source path location held file)

include lands

theorem grown (copy : File) : Grown system (system.install location copy) := by
  cases held with
  | none =>
      rw [install_of_vacant lands.bears]
      exact .putFile lands.belowRoot lands.bears
  | some old =>
      rcases lands.bears with ⟨found, -, stands, -⟩
      rw [install_of_file stands]
      exact ⟨fun _ _ => id, rfl⟩

theorem view?_install (filed : system.Filed) {other : Location} (differs : other ≠ location)
    (copy : File) : (system.install location copy).view? other = system.view? other :=
  lands.bears.view?_install filed lands.sole lands.belowRoot differs copy

/-- The path of a copy means it. -/
theorem locate_install (copy : File) :
    (system.install location copy).locate path = .ok (.live location) := by
  have grown := lands.grown copy
  rcases lands.leads with ⟨spot, ends, there⟩
  rw [← there]
  refine locate_of_resolve grown.nodes grown.places (by simp) ?_ ends
  rintro directory name rfl
  cases there
  rcases lands.bears.install lands.belowRoot (Nat.zero_le _) copy with ⟨id, -, stands, -⟩
  exact ⟨rfl, id, stands⟩

/-- The source shows the same when its copy has been laid down. -/
theorem shown_install (filed : system.Filed) (copy : File) :
    (system.install location copy).shown source = .ok (some (.file file)) := by
  rcases lands.reads with ⟨id, reads, known, apart⟩
  rcases sourceAt_eq_file_iff.mp (sourceAt_of_openToRead reads) with ⟨place, found, isFile⟩
  rw [shown, (lands.grown copy).locate found]
  refine congrArg Except.ok ?_
  cases place with
  | removed between above =>
      cases isFile
  | live other =>
      have differs : other ≠ location := by
        rintro rfl
        exact apart isFile
      exact (lands.view?_install filed differs copy).trans
        (view?_eq_file_iff.mpr ⟨id, isFile, known⟩)

/-- A copy has no other name. -/
theorem sole_install (filed : system.Filed) (copy : File) :
    (system.install location copy).Sole location := by
  intro other same
  by_contra differs
  rcases same with ⟨id, here, there⟩
  have stands := there
  rw [lands.bears.node?_install lands.belowRoot (Ne.symm differs)] at stands
  rcases filed.exists_file stands with ⟨standing, known⟩
  have bearsOther : system.Bears 0 other (some standing) := ⟨id, Nat.zero_le id, stands, known⟩
  exact lands.bears.sameFile_install lands.belowRoot bearsOther (Ne.symm differs)
    (fun same => differs (lands.sole other same)) copy ⟨id, here, there⟩

/-- A copy is laid down where it lands, if the old file admits it. -/
theorem copyBytes_eq (wellFormed : system.WellFormed) :
    copyBytes source path system =
      if held.all File.isWritable then
        .ok file.content.bytes.length
          (system.install location (written file.mode file.content))
      else .error (.refused .accessDenied) system := by
  rcases lands.leads with ⟨spot, ends, there⟩
  rcases lands.reads with ⟨id, reads, known, apart⟩
  exact copyBytes_of_bears wellFormed ends there lands.bears reads known apart

end Lands

/-! ## What a copy leaves -/

/-- What there is after a file has been copied, and how it differs from what there was before. -/
structure Copied (source destination : Path) (location : Location) (file : File)
    (first last : FileSystem) : Prop where
  /-- The source has meant the file before, if it has meant anything. -/
  before : ∀ place, first.locate source = .ok place → first.viewAt? place = some (.file file)
  after : last.shown source = .ok (some (.file file))
  leads : last.locate destination = .ok (.live location)
  copy : last.view? location = some (.file (written file.mode file.content))
  sole : last.Sole location
  replaced : ∀ view, first.view? location = some view → ∃ old, view = .file old
  above : ∀ upper ∈ destination.ancestors.tail, upper.bytes ≠ [] → last.isDirectory upper = true
  places : last.workingDirectory = first.workingDirectory
  kept : ∀ other view, other ≠ location → first.view? other = some view →
    last.view? other = some view
  names : ∀ one other, one ≠ location → other ≠ location →
    (last.SameFile one other ↔ first.SameFile one other)
  new : ∀ other view, other ≠ location → first.view? other = none →
    last.view? other = some view →
    view = .directory ∧ ∃ upper ∈ destination.ancestors.tail, last.locate upper = .ok (.live other)

/-- What is read once directories have been raised is what the source has meant before. -/
theorem Lands.viewAt?_before {paths : List Path} {place : Place}
    (lands : middle.Lands source path location held file) (raised : Raised paths first middle)
    (found : first.locate source = .ok place) : first.viewAt? place = some (.file file) := by
  rcases lands.reads with ⟨id, reads, known, -⟩
  rcases sourceAt_eq_file_iff.mp (sourceAt_of_openToRead reads) with ⟨_, led, isFile⟩
  cases (raised.toGrown.locate found).symm.trans led
  cases place with
  | removed between above =>
      cases isFile
  | live other =>
      rw [file?, raised.files] at known
      exact view?_eq_file_iff.mpr ⟨id, raised.node?_eq_file_iff.mp isFile, known⟩

/-- What is laid down where directories have been raised is a copy, and all else is as it was. -/
theorem Lands.copied (lands : middle.Lands source destination location held file)
    (wellFormed : first.WellFormed) (raises : Raises destination.ancestors.tail first middle)
    (wellFormedLast : (middle.install location (written file.mode file.content)).WellFormed) :
    Copied source destination location file first
      (middle.install location (written file.mode file.content)) := by
  rcases raises with ⟨wellFormedMiddle, raised⟩
  have filed := wellFormedMiddle.filed
  have grown := lands.grown (written file.mode file.content)
  have leads := lands.locate_install (written file.mode file.content)
  have laid := lands.bears.install lands.belowRoot (Nat.zero_le _) (written file.mode file.content)
  refine ⟨fun place => lands.viewAt?_before raised, lands.shown_install filed _, leads,
    laid.view?_eq, lands.sole_install filed _, ?_, ?_, grown.places.trans raised.places,
    ?_, ?_, ?_⟩
  · intro view seen
    have still := raised.view? seen
    rw [lands.bears.view?_eq] at still
    rcases Option.map_eq_some_iff.mp still with ⟨old, -, rfl⟩
    exact ⟨old, rfl⟩
  · intro upper
    exact isDirectory_of_pathExists wellFormedLast (pathExists_iff.mpr ⟨_, leads⟩)
  · intro other view differs seen
    rw [lands.view?_install filed differs]
    exact raised.view? seen
  · intro one other differs differsOther
    rw [← raised.sameFile_iff]
    simp only [SameFile, lands.bears.node?_install lands.belowRoot differs,
      lands.bears.node?_install lands.belowRoot differsOther]
  · intro other view differs vacant seen
    rw [lands.view?_install filed differs] at seen
    rcases raised.of_view?_eq_none wellFormed.filed filed vacant seen with
      ⟨isDirectory, upper, member, led⟩
    exact ⟨isDirectory, upper, member, grown.locate led⟩

/-- A copy that succeeds leads to the copy of a file where what was there can be replaced. -/
theorem exists_copied (wellFormed : first.WellFormed)
    (ran : prepareFor destination first = .ok () middle)
    (replaceable : middle.Replaceable source destination)
    (copied : copyBytes source destination middle = .ok count last) :
    ∃ location file, count = file.content.bytes.length ∧
      Copied source destination location file first last := by
  have raises : Raises destination.ancestors.tail first middle :=
    (Raises.keeps_prepareFor first destination).of_ok ⟨wellFormed, .refl _ first⟩ ran
  have wellFormedLast : last.WellFormed :=
    ((WellFormed.keptByWriting destination).copyBytes source).of_ok raises.1 copied
  rcases copyBytes_ends source destination middle with
    ⟨fault, failed⟩ | ⟨id, handle, opened, _, _, reads, opens, -⟩
  · cases failed.symm.trans copied
  · rcases (opens_of_ok opens).exists_spot raises.1 with ⟨spot, ends, -⟩
    rcases sourceAt_eq_file_iff.mp (sourceAt_of_openToRead reads) with ⟨place, -, isFile⟩
    rcases raises.1.file?_of_nodeAt? isFile with ⟨-, file, known⟩
    rcases replaceable.exists_lands raises.1 ends reads known with ⟨location, held, lands⟩
    have laid := copied.symm.trans (lands.copyBytes_eq raises.1)
    split at laid
    · cases laid
      exact ⟨location, file, rfl, lands.copied wellFormed raises wellFormedLast⟩
    · cases laid

/--
A file that is copied to a path with the directories above it.  The path means the copy afterwards
if it could be replaced, and nothing but directories is new besides.  If the copy is refused, all
that is new are directories.
-/
theorem copyFile_holds (wellFormed : first.WellFormed) (source destination : Path) :
    (∀ count last, copyFile source destination first = .ok count last →
        first.Replaceable source destination →
        (∀ middle, prepareFor destination first = .ok () middle → middle ≠ first →
          parentName ∈ destination.names → middle.Replaceable source destination) →
        ∃ location file, count = file.content.bytes.length ∧
          Copied source destination location file first last) ∧
      ∀ fault last, copyFile source destination first = .error fault last →
        Raised destination.ancestors.tail first last := by
  refine ⟨fun count last ran replaceable later => ?_, fun fault last ran => ?_⟩
  · rcases exists_of_run_bind_eq_ok ran with ⟨_, middle, prepared, copied⟩
    refine exists_copied wellFormed prepared ?_ copied
    by_cases back : middle ≠ first ∧ parentName ∈ destination.names
    · exact later middle prepared back.1 back.2
    · exact replaceable.prepareFor wellFormed back prepared
  · have raises := Raises.keeps_prepareFor first destination first ⟨wellFormed, .refl _ first⟩
    rw [stateAfter] at raises
    split at raises
    · next middle prepared =>
      rw [copyFile, run_bind_of_ok prepared] at ran
      rcases copyBytes_ends source destination middle with
        ⟨cause, failed⟩ | ⟨_, _, _, count, ended, -, -, copied⟩
      · cases failed.symm.trans ran
        exact raises.2
      · cases copied.symm.trans ran
    · next cause middle failed =>
      rw [copyFile, run_bind_of_error failed] at ran
      cases ran
      exact raises.2

/-! ## Copies on a small file system -/

/-- A file system with an executable that runs as its owner, and another one. -/
def bench : FileSystem :=
  stateAfter
    (do
      writeFile (.ofString "/sur") (.plain [0x78])
      changeMode (.ofString "/sur") 0o4755
      makeDirectory (.ofString "/bin")
      writeFile (.ofString "/bin/sur") (.plain [0x79, 0x7A]))
    FileSystem.empty

theorem wellFormed_bench : bench.WellFormed := by
  apply Keeps.bind (keeps_writeFile _ _) _ _ wellFormed_empty
  intro _
  apply Keeps.bind (keeps_changeMode _ _)
  intro _
  exact Keeps.bind (keeps_makeDirectory _) fun _ => keeps_writeFile _ _

theorem replaceable_bench : bench.Replaceable (.ofString "/sur") (.ofString "/bin/sur") := by
  have leads : bench.locate (.ofString "/bin/sur") =
      .ok (.live [Utf8.ofString "bin", Utf8.ofString "sur"]) := by
    cbv
  intro place found
  cases leads.symm.trans found
  exact ⟨_, 1, rfl, by decide, sole_of_below (by decide), by decide⟩

/-- Whether a copy succeeds, counts so many bytes and leaves a file at a location. -/
def copies (system : FileSystem) (source destination : Path) (count : Nat) (location : Location)
    (file : File) : Bool :=
  match copyFile source destination system with
  | .ok counted last => counted = count ∧ last.view? location = some (.file file)
  | .error _ _ => false

theorem exists_of_copies (copies : system.copies source destination count location file = true) :
    ∃ last, copyFile source destination system = .ok count last ∧
      last.view? location = some (.file file) := by
  rw [FileSystem.copies] at copies
  split at copies
  · next counted last ran =>
    rcases of_decide_eq_true copies with ⟨rfl, seen⟩
    exact ⟨last, ran, seen⟩
  · cases copies

/-- An executable is copied over another one. -/
theorem copyFile_holds_bench :
    ∃ last, copyFile (.ofString "/sur") (.ofString "/bin/sur") bench = .ok 1 last ∧
      ∃ location file, 1 = file.content.bytes.length ∧
        Copied (.ofString "/sur") (.ofString "/bin/sur") location file bench last := by
  have copied : bench.copies (.ofString "/sur") (.ofString "/bin/sur") 1
      [Utf8.ofString "bin", Utf8.ofString "sur"] ⟨0o755, .plain [0x78]⟩ = true := by
    cbv
  rcases exists_of_copies copied with ⟨last, ran, -⟩
  have holds := copyFile_holds wellFormed_bench (.ofString "/sur") (.ofString "/bin/sur")
  refine ⟨last, ran, holds.1 1 last ran replaceable_bench fun _ _ _ back => absurd back ?_⟩
  decide

/--
Copying takes from a file that it runs as its owner, and a file is emptied that a path comes to mean
by the directories made for it.
-/
theorem copyFile_strays :
    bench.WellFormed ∧ bench.view? [Utf8.ofString "sur"] = some (.file ⟨0o4755, .plain [0x78]⟩) ∧
      bench.Replaceable (.ofString "/sur") (.ofString "/copy") ∧
      (∃ last, copyFile (.ofString "/sur") (.ofString "/copy") bench = .ok 1 last ∧
        last.view? [Utf8.ofString "copy"] = some (.file ⟨0o755, .plain [0x78]⟩)) ∧
      bench.Replaceable (.ofString "/sur") (.ofString "/new/../sur") ∧
      ∃ last, copyFile (.ofString "/sur") (.ofString "/new/../sur") bench = .ok 0 last ∧
        last.view? [Utf8.ofString "sur"] = some (.file ⟨0o4755, .plain []⟩) := by
  refine ⟨wellFormed_bench, by cbv, replaceable_of_absent (by cbv) _, exists_of_copies ?_,
    replaceable_of_absent (by cbv) _, exists_of_copies ?_⟩
  · cbv
  · cbv

end BundlePacker.FileSystem
